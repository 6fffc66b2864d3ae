import SymbolTable.Proofs.Action.Serving
import SymbolTable.Proofs.Anchors

/-!
# Deletions that listeners disturb

A deletion of a scope deletes what was listed in it, one symbol after the other, and listeners act
on the table in between. Some of these symbols are gone when their turn comes, and some are being
deleted already, so that they are passed over. But nothing else is left in the scope when its row is
taken out, because nothing was moved into it (`prevails_clearScope`).

That a deletion comes to its end is said as long as ids are left (`Prevails`): then every part of it
answers. It does not run out of depth, since each level marks a scope that was not marked, and no
scope comes meanwhile (`Table.Room`).
-/

namespace SymbolTable

open Table (Path Step upkeep)

variable {σ α β : Type} {t t₁ t' : Table} {on on' : HandleId → Prop} {notify : Listener σ} {h k : HandleId}
  {id : SymbolId} {n depth : Nat}

namespace Table

/-! ## Tables in which a deletion is going on -/

/-- The table is exact and its rows are anchored, and there are ids left. -/
structure Intact (t : Table) : Prop where
  sound : t.Sound
  exact : t.Exact
  anchored : t.Anchored
  left : t.drawn < UInt64.size - 1

/-- On the course an intact table stays so as long as ids are left, and whatever is being deleted is
shielded. -/
theorem Intact.of_rel (ht : t.Intact) (hrel : Course.shielding.rel t t') (hlt : t'.drawn < UInt64.size - 1) :
    t'.Intact ∧ t.Shields (fun _ => True) t' := by
  obtain ⟨he, ha, hshields⟩ := hrel.2 ht.sound hlt ht.exact ht.anchored
  exact ⟨⟨hrel.sound ht.sound, he, ha, hlt⟩, hshields⟩

/-- The symbol is gone, or it is being deleted. -/
def Spent (t : Table) (id : SymbolId) : Prop :=
  (id.val.toNat ≤ t.drawn ∧ t.row? id = none) ∨ t.Dying id

/-- A symbol that is gone or being deleted is so later on, if the handles of those that are being
deleted are guarded. -/
theorem Guards.spent (hg : t.Guards on t') (hspent : t.Spent id) : t'.Spent id :=
  hspent.imp (fun hgone => ⟨Nat.le_trans hgone.1 hg.drawn, hg.gone id hgone.1 hgone.2⟩) hg.dying

/-- No more than `n` scopes are there that are not being deleted. -/
def Room (t : Table) (n : Nat) : Prop :=
  ∃ ids : List SymbolId, ids.length ≤ n ∧ ∀ id, t.HasScope id → ¬ t.Dying id → id ∈ ids

namespace Room

/-- There are no more scopes than rows, so a deletion that begins has room for all of them. -/
theorem length_rows (t : Table) : t.Room t.rows.length := by
  refine ⟨t.rows.map (·.id), Nat.le_of_eq (List.length_map _), fun id hscope _ => ?_⟩
  obtain ⟨r, -, hrow, -⟩ := hscope
  exact List.mem_map.2 ⟨r, mem_of_row? hrow, id_of_row? hrow⟩

/-- No room is lost while others act: no scope comes while some symbol is being deleted. The ids
that the room counts are those of the scopes before, so there are no fewer of them. -/
theorem of_shields (hroom : t.Room n) (hshields : t.Shields on t') (hmarked : (t.handle k).deleting = true) :
    t'.Room n := by
  obtain ⟨ids, hlen, hids⟩ := hroom
  exact ⟨ids, hlen, fun id hscope hnot => hids id (hshields.scopes k hmarked id hscope)
    fun hdying => hnot (hshields.guards.dying hdying)⟩

/-- There is one scope less once the deletion of one begins. The scope was among those for which
there was room and is not counted any more. So the depth of a deletion may be measured by the room
that is left. -/
theorem mark (hroom : t.Room n) (hscope : t.HasScope id) (hnot : ¬ t.Dying id) (hmarked : t'.Dying id)
    (hscopes : ∀ i, t'.HasScope i → t.HasScope i) (hdying : ∀ i, t.Dying i → t'.Dying i) :
    ∃ m < n, t'.Room m := by
  obtain ⟨ids, hlen, hids⟩ := hroom
  have hmem := hids id hscope hnot
  refine ⟨(ids.erase id).length, ?_, ids.erase id, Nat.le_refl _, fun i hi hnot' => ?_⟩
  · have hpos := List.length_pos_of_mem hmem
    rw [List.length_erase_of_mem hmem]
    omega
  · have hne : i ≠ id := by
      rintro rfl
      exact hnot' hmarked
    exact (List.mem_erase_of_ne hne).2 (hids i (hscopes i hi) fun h => hnot' (hdying i h))

end Room

/-! ## Marks -/

/-- A deletion begins. Symbols that were being deleted still are, as no mark is taken away by it. -/
theorem Dying.mark (hdying : t.Dying id) : (t.updateHandle h fun s => { s with deleting := true }).Dying id := by
  obtain ⟨k, hmarked, hkey⟩ := hdying
  refine ⟨k, ?_, (map_updateHandle Handle.key rfl).trans hkey⟩
  rcases t.handle_updateHandle_or h (fun s => { s with deleting := true }) k with heq | ⟨rfl, heq⟩
  · rw [heq, hmarked]
  · rw [heq]

/-- Rows stay anchored when a deletion begins, for the mark excuses the rows in the scope and adds
no others. -/
theorem Anchored.mark (ha : t.Anchored) :
    (t.updateHandle h fun s => { s with deleting := true }).Anchored :=
  ha.of_receives ⟨ha.regular.rules, ha.regular.works, ha.regular.designated⟩ rfl
    (fun _ hscope => hscope.congr rfl) (fun _ => Dying.mark) (.of_rows_eq rfl)

/-- The deletion of a symbol that is gone ends. Its mark excused the rows that lay in it. They are
all gone or being deleted, as the row that they lie in is gone by then. -/
theorem Anchored.unmark (ha : t.Anchored) (hs : t.Sound)
    (hgone : ∀ id, (t.handle h).key = .stored id → t.row? id = none) :
    (t.updateHandle h fun s => { s with deleting := false }).Anchored := by
  refine ⟨⟨ha.regular.rules, ha.regular.works, ha.regular.designated⟩, ha.opened, ha.kinds,
    fun x hx id hparent => ?_⟩
  refine (ha.anchored x hx id hparent).imp (fun hscope => hscope.congr rfl) ?_
  rintro ⟨k, hmarked, hkey⟩
  have hne : k ≠ h := by
    rintro rfl
    cases (hgone x.id hkey).symm.trans (row?_id hs.backend hx)
  exact ⟨k, by rw [handle_updateHandle_ne t hne, hmarked], (map_updateHandle Handle.key rfl).trans hkey⟩

/-- A table is still intact when a deletion begins. -/
theorem Intact.mark (ht : t.Intact) : (t.updateHandle h fun s => { s with deleting := true }).Intact := by
  have hstep : Step (Eq .remove) t (t.updateHandle h fun s => { s with deleting := true }) := .mark rfl h true
  exact ⟨hstep.sound ht.sound, hstep.exact nofun nofun ht.sound nofun ht.exact, ht.anchored.mark, ht.left⟩

/-- A table is still intact when a deletion ends after which the symbol is gone. The mark excused
the row of this symbol alone, and there is no such row any more. -/
theorem Intact.unmark (ht : t.Intact) (hgone : ∀ id, (t.handle h).key = .stored id → t.row? id = none) :
    (t.updateHandle h fun s => { s with deleting := false }).Intact := by
  have hstep : Step (Eq .remove) t (t.updateHandle h fun s => { s with deleting := false }) := .mark rfl h false
  exact ⟨hstep.sound ht.sound, hstep.exact nofun nofun ht.sound nofun ht.exact,
    ht.anchored.unmark ht.sound hgone, ht.left⟩

end Table

namespace Action

/-! ## Actions that prevail -/

/-- Run at a table, the action leads along steps. If there are ids left at the end, the table is
intact, the symbols of some handles that were being deleted have been left alone, and the action has
answered, with `P` of its answer and of the table then. -/
def Prevails (on : HandleId → Prop) (t : Table) (a : Action σ α) (P : α → Table → Prop) : Prop :=
  Ends t a fun answer t' => Path (fun _ => True) t t' ∧ (t'.drawn < UInt64.size - 1 →
    t'.Intact ∧ t.Shields on t' ∧ ∃ x, answer = .ok x ∧ P x t')

namespace Prevails

variable {a : Action σ α} {P : α → Table → Prop}

/-- Just to answer prevails. -/
theorem pure {x : α} (ht : t.Intact) (h : P x t) : Prevails on t (Pure.pure x : Action σ α) P :=
  Ends.pure ⟨.refl, fun _ => ⟨ht, .refl t, x, rfl, h⟩⟩

/-- What is looked up in the table is known there. -/
theorem look_bind {q : Table → β} {f : β → Action σ α} (h : Prevails on t (f (q t)) P) :
    Prevails on t (Action.look q >>= f) P :=
  Ends.look_bind h

/-- What prevails may be weakened, and it may be used that the table is intact and who was left
alone. -/
theorem imp {P' : α → Table → Prop} (h : Prevails on t a P) (hon : ∀ k, on' k → on k)
    (hP : ∀ x t', t'.Intact → t.Shields on t' → P x t' → P' x t') : Prevails on' t a P' := by
  refine Ends.imp h fun answer t' ⟨hpath, hok⟩ => ⟨hpath, fun hlt => ?_⟩
  obtain ⟨ht', hshields, x, rfl, hx⟩ := hok hlt
  exact ⟨ht', hshields.mono hon, x, rfl, hP x t' ht' hshields hx⟩

/-- To make something else of the answer prevails as the action does. A refusal is passed on, and
none is possible as long as ids remain. -/
theorem map {f : α → β} {P' : β → Table → Prop} (h : Prevails on t a P)
    (hf : ∀ x t', t.Shields on t' → P x t' → P' (f x) t') : Prevails on t (f <$> a) P' := by
  refine Ends.map h (fun x t' ⟨hpath, hok⟩ => ⟨hpath, fun hlt => ?_⟩) fun fault t' ⟨hpath, hok⟩ =>
    ⟨hpath, fun hlt => ?_⟩
  · obtain ⟨ht', hshields, _, ⟨⟩, hx⟩ := hok hlt
    exact ⟨ht', hshields, f x, rfl, hf x t' hshields hx⟩
  · obtain ⟨-, -, _, ⟨⟩, -⟩ := hok hlt

/-- An action on the course that answers. Ids must remain at its end for anything to be said of
it. -/
theorem of_answers (ht : t.Intact) (hfollows : Follows .shielding a) (h : Answers t a P) :
    Prevails (fun _ => True) t a P := by
  refine ((hfollows t ht.sound).and h).imp ?_
  rintro answer t' ⟨hrel, x, rfl, hx⟩
  refine ⟨hrel.path, fun hlt => ?_⟩
  obtain ⟨ht', hshields⟩ := ht.of_rel hrel hlt
  exact ⟨ht', hshields, x, rfl, hx⟩

/-- Seen from a table that led here, in which the symbols were left alone. The paths are put
together, and so is what was shielded. -/
theorem after (hpath : Path (fun _ => True) t t₁) (hshields : t.Shields on t₁) (h : Prevails on t₁ a P) :
    Ends t₁ a fun answer t' => Path (fun _ => True) t t' ∧ (t'.drawn < UInt64.size - 1 →
      t'.Intact ∧ t.Shields on t' ∧ ∃ x, answer = .ok x ∧ P x t') := by
  refine Ends.imp h fun answer t' ⟨hpath', hok⟩ => ⟨hpath.trans hpath', fun hlt => ?_⟩
  obtain ⟨ht', hshields', hx⟩ := hok hlt
  exact ⟨ht', hshields.trans hshields', hx⟩

/-- Where ids have run out, the next action only has to lead along steps. Nothing is promised after
that, but the steps are needed, to know that the ids that were drawn stay drawn. -/
theorem bind {f : α → Action σ β} {P' : β → Table → Prop} (hs : t.Sound) (h : Prevails on t a P)
    (hon : ∀ k, on' k → on k)
    (hsteps : ∀ x t₁, Path (fun _ => True) t t₁ → Ends t₁ (f x) fun _ t' => Path (fun _ => True) t₁ t')
    (hf : ∀ x t₁, t₁.Intact → t.Shields on t₁ → P x t₁ → Prevails on' t₁ (f x) P') :
    Prevails on' t (a >>= f) P' := by
  refine Ends.bind h (fun x t₁ ⟨hpath, hok⟩ => ?_) fun fault t₁ ⟨hpath, hok⟩ => ⟨hpath, fun hlt => ?_⟩
  · by_cases hlt : t₁.drawn < UInt64.size - 1
    · obtain ⟨ht₁, hshields, _, ⟨⟩, hx⟩ := hok hlt
      exact (hf x t₁ ht₁ hshields hx).after hpath (hshields.mono hon)
    · refine (hsteps x t₁ hpath).imp fun _ t' hpath' => ⟨hpath.trans hpath', fun hlt' => ?_⟩
      exact absurd (Nat.lt_of_le_of_lt (hpath'.drawn_le (hpath.sound hs)) hlt') hlt
  · obtain ⟨-, -, _, ⟨⟩, -⟩ := hok hlt

end Prevails

/-- A listener that stays on the course takes steps. -/
theorem Heeds.steps (hn : Heeds .shielding notify) : Heeds (.steps fun _ => True) notify where
  told e s hs hchange := (hn.told e s hs hchange).path
  removed e s hs hchange := (hn.removed e s hs hchange).path

/-! ## Clearing a scope -/

/-- Symbols are deleted, of which no more are nested than `depth` says. -/
def Empties (delete : HandleId → Action σ Bool) (depth : Nat) : Prop :=
  ∀ t h n, t.Intact → t.Room n → n < depth →
    Prevails (fun _ => True) t (delete h) fun _ t' => ∀ id, (t.handle h).key = .stored id → t'.Spent id

section
variable {delete : HandleId → Action σ Bool} (hsteps : ∀ h, Follows (.steps fun _ => True) (delete h))
  (hempties : Empties delete depth)

include hsteps hempties

/-- A member of the scope is deleted if it is there and is not being deleted. If the listener of a
deletion before it has deleted it, it is gone, and if somebody is deleting it, it is left to them.
Both count as spent. -/
theorem prevails_clearMember (ht : t.Intact) (hmarked : (t.handle k).deleting = true) (hroom : t.Room n)
    (hn : n < depth) {x : SymbolId} (hx : x.val.toNat ≤ t.drawn) :
    Prevails (fun _ => True) t (clearMember delete x) fun _ t' => t'.Spent x := by
  have hfound : Answers t (lookup x : Action σ _) fun found t' => (found = none → t'.row? x = none) ∧
      ∀ child, found = some child → (t'.handle child).key = .stored x := by
    cases hrow : t.row? x with
    | none =>
      refine (answers_lookup_of_row?_eq_none ht.sound ht.exact ht.anchored.regular.works hrow).imp ?_
      rintro _ _ ⟨rfl, rfl⟩
      exact ⟨fun _ => hrow, nofun⟩
    | some r =>
      obtain ⟨kind, hkind⟩ := ht.anchored.kinds r (Table.mem_of_row? hrow)
      refine (answers_lookup ht.sound ht.anchored.regular.works ht.exact.pooled.pools ⟨r, kind, hrow, hkind⟩).imp ?_
      rintro _ _ ⟨child, rfl, hserves⟩
      refine ⟨nofun, ?_⟩
      rintro _ ⟨⟩
      exact hserves.key
  refine Prevails.bind ht.sound (.of_answers ht (follows_lookup x) hfound) (fun _ h => h)
    (fun found t₁ hpath => ?_) ?_
  · split
    · exact .pure .refl
    · refine .look_bind ?_
      split
      · exact .pure .refl
      · exact Follows.map (hsteps _) t₁ (hpath.sound ht.sound)
  · rintro found t₁ ht₁ hshields ⟨hnone, hchild⟩
    cases found with
    | none => exact .pure ht₁ (.inl ⟨Nat.le_trans hx hshields.guards.drawn, hnone rfl⟩)
    | some child =>
      have hkey := hchild child rfl
      refine .look_bind ?_
      split
      · rename_i hdeleting
        exact .pure ht₁ (.inr ⟨child, hdeleting, hkey⟩)
      · exact (hempties t₁ child n ht₁ (hroom.of_shields hshields hmarked) hn).map
          fun _ _ _ hspent => hspent x hkey

/-- After one another, all that were listed are deleted. What has been spent stays so while the
others are deleted, which is `Guards.spent`. The induction is on what is left of the list. -/
theorem prevails_clearMembers (xs : List Row) (ht : t.Intact) (hmarked : (t.handle k).deleting = true)
    (hroom : t.Room n) (hn : n < depth) (hxs : ∀ x ∈ xs, x.id.val.toNat ≤ t.drawn) :
    Prevails (fun _ => True) t (xs.forM fun x => clearMember delete x.id) fun _ t' =>
      ∀ x ∈ xs, t'.Spent x.id := by
  induction xs generalizing t with
  | nil => exact .pure ht nofun
  | cons x xs ih =>
    rw [List.forM_eq_forM, List.forM_cons]
    refine Prevails.bind ht.sound (prevails_clearMember hsteps hempties ht hmarked hroom hn (hxs x (.head _)))
      (fun _ h => h) (fun _ t₁ hpath => ?_) ?_
    · exact Follows.forM (fun _ => follows_clearMember hsteps _) xs t₁ (hpath.sound ht.sound)
    · intro _ t₁ ht₁ hshields hspent
      have hxs₁ : ∀ y ∈ xs, y.id.val.toNat ≤ t₁.drawn := fun y hy =>
        Nat.le_trans (hxs y (.tail _ hy)) hshields.guards.drawn
      refine (ih ht₁ ((hshields.guards.marks k).trans hmarked) (hroom.of_shields hshields hmarked) hxs₁).imp
        (fun _ h => h) fun _ t₂ _ hshields' hrest y hy => ?_
      rcases List.mem_cons.1 hy with rfl | hy
      · exact hshields'.guards.spent hspent
      · exact hrest y hy

/-- Nothing is left in the scope but what is being deleted. What lay there was listed when the
deletion began, and nothing came in, since the symbol was shielded. So all that is left in it is
being deleted by somebody. -/
theorem prevails_clearScope (ht : t.Intact) (hmarked : (t.handle k).deleting = true)
    (hkey : (t.handle k).key = .stored id) (hroom : t.Room n) (hn : n < depth) :
    Prevails (fun _ => True) t (clearScope delete (.of id)) fun _ t' =>
      ∀ x ∈ t'.rows, x.parent = .of id → t'.Dying x.id := by
  refine Ends.seq (.rowsIn ht.sound.backend (.ok ?_)
    fun _ hfails => absurd hfails ht.anchored.regular.works.not_mayFail)
  have hmem : ∀ x, x ∈ t.rows.filter (·.parent = .of id) ↔ x ∈ t.rows ∧ x.parent = .of id := fun x => by
    simp
  refine (prevails_clearMembers hsteps hempties _ ht hmarked hroom hn fun x hx => ?_).imp (fun _ h => h)
    fun _ t' ht' hshields hspent x hx hparent => ?_
  · exact ht.exact.le_drawn x ((hmem x).1 hx).1
  · -- what is in the scope now was in it when it was listed
    obtain ⟨y, hy, hid, hy'⟩ := hshields.members id ⟨k, hmarked, hkey⟩ x hx hparent
    rcases hspent y ((hmem y).2 ⟨hy, hy'⟩) with ⟨-, hnone⟩ | hdying
    · rw [hid, Table.row?_id ht'.sound.backend hx] at hnone
      cases hnone
    · exact hid ▸ hdying

end

/-! ## Taking out the row -/

section
variable (hn : Heeds .shielding notify)

include hn

/-- The row is taken out that the handle had when its deletion began. The symbol lies where it lay,
so the designation that is passed on is that of its address. The row may have been edited otherwise
in the meantime, which does not matter. -/
theorem prevails_removeRow {r x : Row} (ht : t.Intact) (hkey : (t.handle h).key = .stored r.id)
    (hrow : t.row? r.id = some x) (haddress : x.address = r.address)
    (hempty : ∀ y ∈ t.rows, y.parent = .of r.id → t.Dying y.id) :
    Prevails (· ≠ h) t (removeRow notify h r) fun _ t' => t'.row? r.id = none := by
  have hanswers : Answers t (removeRow notify h r) fun _ t' => Path (fun _ => True) t t' ∧
      (t'.drawn < UInt64.size - 1 → t'.Intact ∧ t.Shields (· ≠ h) t' ∧ t'.row? r.id = none) := by
    refine answers_removeRow ht.sound.backend ht.anchored.regular.works hrow ?_
    intro t₁ name s hremoval hs
    have hdeparts := Table.Departs.noted hremoval name
    have hpath := hdeparts.path hkey
    have hstored : t.row? r.id ≠ none := hrow ▸ Option.some_ne_none x
    have hs₁ := hpath.sound ht.sound
    have hheeds := hn.removed (Departure.mk r name).event s (hs ▸ ⟨hs₁.backend, hs₁.inOrder⟩) rfl
    rw [hs] at hheeds
    refine ⟨(hpath.mono fun _ _ => trivial).trans hheeds.path, fun hlt => ?_⟩
    have hlt₁ := Nat.lt_of_le_of_lt (hheeds.path.drawn_le hs₁) hlt
    have ht₁ : Table.Intact _ := ⟨hs₁, hpath.exact nofun nofun ht.sound nofun ht.exact,
      ht.anchored.departs hdeparts ht.sound ht.exact hkey hrow haddress hempty, hlt₁⟩
    obtain ⟨ht', hshields⟩ := ht₁.of_rel hheeds hlt
    have hdeparted := Table.Shields.departs hdeparts ht.sound ht.exact hkey hstored
    refine ⟨ht', hdeparted.trans (hshields.mono fun _ _ => trivial), hshields.guards.gone r.id ?_ ?_⟩
    · refine Nat.le_trans ?_ hdeparted.guards.drawn
      have hle := ht.exact.le_drawn x (Table.mem_of_row? hrow)
      rwa [Table.id_of_row? hrow] at hle
    · obtain ⟨b, hremoves, hbeside⟩ := hdeparts.exists_release
      rw [Table.row?_congr (t := t.withBackend b) hbeside.rows_eq]
      exact (Table.row?_removes ht.sound.backend hremoves r.id).trans (if_pos rfl)
  refine Ends.imp hanswers fun answer t' ⟨existed, heq, hpath, hok⟩ => ⟨hpath, fun hlt => ?_⟩
  obtain ⟨ht', hshields, hgone⟩ := hok hlt
  exact ⟨ht', hshields, existed, heq, hgone⟩

/-- To take a row out leads along steps, whatever the listener does that does so itself. The key of
the handle is needed, by which it leaves the pool along with the row. -/
theorem steps_removeRow {r : Row} (hs : t.Sound) (hkey : (t.handle h).key = .stored r.id) :
    Ends t (removeRow notify h r) fun _ t' => Path (fun _ => True) t t' := by
  refine ends_removeRow hs .refl (fun t₁ _ hremoval _ => (hremoval.path hkey).mono fun _ _ => trivial) ?_
  intro t₁ name s hremoval hs₁
  have hpath := (Table.Departs.noted hremoval name).path hkey
  have hsound := hpath.sound hs
  have hheeds := hn.removed (Departure.mk r name).event s (hs₁ ▸ ⟨hsound.backend, hsound.inOrder⟩) rfl
  rw [hs₁] at hheeds
  exact (hpath.mono fun _ _ => trivial).trans hheeds.path

variable {delete : HandleId → Action σ Bool} (hsteps : ∀ h, Follows (.steps fun _ => True) (delete h))
  (hempties : Empties delete depth)

include hsteps hempties

/-- The row of a marked handle is taken out after what lies in it, so it is gone at the end. The
room is that for the scopes below it, of which there is one less than before the mark. -/
theorem prevails_removeWith {r : Row} (ht : t.Intact) (hmarked : (t.handle h).deleting = true)
    (hrow : (t.handle h).row = some r) (hroom : t.HasScope r.id → ∃ m < depth, t.Room m) :
    Prevails (· ≠ h) t (removeWith notify delete h) fun _ t' => t'.row? r.id = none := by
  have hget := (ht.exact.mirrors h).row r hrow
  have hkey := (ht.sound.inOrder h).key r hrow
  have hkind : r.kind? = some (t.handle h).kind := Kind.ofTag?_eq_some_iff.2 ((ht.sound.inOrder h).tag r hrow)
  refine .look_bind ?_
  rw [hrow]
  dsimp only
  split
  · rename_i hscope
    obtain ⟨m, hm, hroom⟩ := hroom ⟨r, _, hget, hkind, hscope⟩
    refine Prevails.bind ht.sound (prevails_clearScope hsteps hempties ht hmarked hkey hroom hm)
      (fun _ _ => trivial) (fun _ t₁ hpath => ?_) fun _ t₁ ht₁ hshields hempty => ?_
    · exact steps_removeRow hn (hpath.sound ht.sound) (hpath.key_stored ht.sound hkey)
    · obtain ⟨x, hx⟩ := hshields.guards.kept h r.id r trivial hmarked hkey hget
      exact prevails_removeRow hn ht₁ (hshields.guards.keys h r.id hkey) hx
        (hshields.placed h r.id r x trivial hmarked hkey hget hx) hempty
  · rename_i hplain
    refine prevails_removeRow hn ht hkey hget rfl fun y hy hparent => ?_
    refine (ht.anchored.anchored y hy r.id hparent).resolve_left ?_
    rintro ⟨x, kind, hx, hkind', hscope⟩
    cases hget.symm.trans hx
    cases hkind.symm.trans hkind'
    exact hplain hscope

/-- A symbol whose handle is marked is gone at the end. Where it is a scope, what lies in it is
spent first, with the room that is left for the scopes below. A symbol that was gone from the start
is gone without further ado. -/
theorem prevails_deleteMarked (ht : t.Intact)
    (hmarked : (t.handle h).deleted = false → (t.handle h).deleting = true)
    (hroom : ∀ id, (t.handle h).key = .stored id → t.HasScope id → ∃ m < depth, t.Room m) :
    Prevails (· ≠ h) t (deleteMarked notify delete h) fun _ t' =>
      ∀ id, (t'.handle h).key = .stored id → t'.row? id = none := by
  refine Ends.attempt_bind (ends_refresh ht.sound h) fun answer t₁ hr => ?_
  have hrel : Course.shielding.rel t t₁ := hr.rel ht.sound
  have hdrawn : t₁.drawn = t.drawn := congrArg (·.backend.drawn) hr.path.upkeep.1
  obtain ⟨ht₁, hshields⟩ := ht.of_rel hrel (hdrawn ▸ ht.left)
  refine Prevails.after hrel.path (hshields.mono fun _ _ => trivial) ?_
  cases answer with
  | error fault =>
    cases hr with
    | vanished _ hrow _ hgone => exact absurd rfl (hgone _ ((ht.exact.mirrors h).row _ hrow))
    | deleted hdeleted => exact .pure ht₁ fun id hkey => (ht.exact.mirrors h).gone id hkey hdeleted
    | failed _ hfails => exact absurd hfails ht.anchored.regular.works.not_mayFail
  | ok =>
    have hlive := hr.isReady.live
    refine .look_bind ?_
    split
    · rename_i hderived
      refine .pure ht₁ fun id hkey => ?_
      cases hkey.symm.trans ((ht₁.sound.inOrder h).derived hlive (Handle.isDerived_iff.1 hderived).1).1
    · rename_i hstored
      obtain ⟨r, hrow⟩ : ∃ r, (t₁.handle h).row = some r := by
        rw [← Option.ne_none_iff_exists']
        exact fun hnone => hstored (Handle.isDerived_iff.2 ⟨hnone, hlive⟩)
      have hkey := (ht₁.sound.inOrder h).key r hrow
      have hmarked₁ : (t₁.handle h).deleting = true := by
        rw [hr.path.deleting_eq not_false, hmarked hr.live]
      refine (prevails_removeWith hn hsteps hempties ht₁ hmarked₁ hrow fun hscope => ?_).imp (fun _ h => h)
        fun _ t₂ _ hshields' hgone id hid => ?_
      · -- a refresh changes neither the scopes nor the key
        have hrows : t.rows = t₁.rows := hr.path.rows_eq_of_upkeep.symm
        have hkey₀ : (t.handle h).key = .stored r.id := by
          cases hr with
          | ready => exact hkey
          | reloaded => exact (Table.map_updateHandle Handle.key rfl).symm.trans hkey
        obtain ⟨m, hm, hroom⟩ := hroom r.id hkey₀ (hscope.congr hrows)
        exact ⟨m, hm, hroom.of_shields hshields (hmarked hr.live)⟩
      · cases hid.symm.trans (hshields'.guards.keys h r.id hkey)
        exact hgone

end

/-! ## Deleting -/

/-- At every depth that exceeds the number of scopes, what is deleted is gone at the end, or it was
being deleted before. -/
theorem empties_deleteWithin (hn : Heeds .shielding notify) (depth : Nat) :
    Empties (deleteWithin notify depth) depth := by
  have hsteps (depth : Nat) (h : HandleId) : Follows (.steps fun _ => True) (deleteWithin notify depth h) :=
    follows_deleteWithin (Course.Removes.nests (Course.allows_steps (d := .remove) trivial)) hn.steps.removed depth h
  induction depth with
  | zero => exact fun _ _ _ _ _ hlt => absurd hlt (Nat.not_lt_zero _)
  | succ depth ih =>
    intro t h n ht hroom hlt
    refine Ends.ask_bind (fun _ _ => .look_bind ?_) fun fault hfault => ?_
    · split
      · rename_i hmarked
        exact Prevails.pure ht fun id hkey => .inr ⟨h, hmarked, hkey⟩
      · rename_i hidle
        rw [Bool.not_eq_true] at hidle
        have hmark : Step (fun _ => True) t (t.updateHandle h fun s => { s with deleting := true }) :=
          .mark trivial h true
        have hself {t : Table} (hin : h < t.handles.length) :
            ((t.updateHandle h fun s => { s with deleting := true }).handle h).deleting = true := by
          rw [Table.handle_updateHandle_self t hin]
        refine Ends.change_bind (Ends.attempt_bind (prevails_deleteMarked hn (hsteps depth) ih ht.mark
          (fun hlive => ?_) fun id hkey hscope => ?_) fun answer t' ⟨hpath, hok⟩ => ?_)
        · rw [Table.map_updateHandle Handle.deleted rfl] at hlive
          exact hself (Table.lt_of_live hlive)
        · rw [Table.map_updateHandle Handle.key rfl] at hkey
          have hscope : t.HasScope id := hscope.congr rfl
          have hdying : (t.updateHandle h fun s => { s with deleting := true }).Dying id :=
            ⟨h, hself (Table.lt_of_key hkey), (Table.map_updateHandle Handle.key rfl).trans hkey⟩
          have hnot : ¬ t.Dying id := by
            rintro ⟨j, hmarked, hkey'⟩
            obtain ⟨r, -, hrow, -⟩ := hscope
            obtain rfl := ht.exact.eq_of_stored hkey hkey' (hrow ▸ Option.some_ne_none r)
            cases hidle.symm.trans hmarked
          obtain ⟨m, hm, hroom⟩ := hroom.mark hscope hnot hdying
            (fun _ hscope => hscope.congr rfl) fun _ => Table.Dying.mark
          exact ⟨m, Nat.lt_of_lt_of_le hm (Nat.le_of_lt_succ hlt), hroom⟩
        · have hunmark : Step (fun _ => True) t' (t'.updateHandle h fun s => { s with deleting := false }) :=
            .mark trivial h false
          refine Ends.change_bind (.conclude ⟨.head hmark (hpath.tail hunmark), fun hlt' => ?_⟩)
          obtain ⟨ht', hshields, existed, rfl, hgone⟩ := hok hlt'
          refine ⟨ht'.unmark hgone, hshields.unmark hidle, existed, rfl, fun id hkey => .inl ?_⟩
          have hkey' := hshields.guards.keys h id ((Table.map_updateHandle Handle.key rfl).trans hkey)
          exact ⟨(ht'.exact.mirrors h).le_drawn id hkey', hgone id hkey'⟩
    · rw [ht.anchored.opened] at hfault
      cases hfault

/-- A deletion stays on the course, whatever the listener does on it in the meantime. While it goes
on, less is promised of its own symbol than of the others, and with its mark taken away all is
promised again. -/
theorem follows_delete_shielding (hn : Heeds .shielding notify) (h : HandleId) :
    Follows .shielding (delete notify h) := by
  intro t hs
  have hpath := follows_delete hn.steps (Course.allows_steps (d := .remove) trivial) h t hs
  intro s hst
  refine ⟨hpath s hst, fun hs hlt he ha => ?_⟩
  have hleft := Nat.lt_of_le_of_lt ((hpath s hst).drawn_le hs) hlt
  have hdepth : t.rows.length < t.deletionDepth := by
    have hsize : t.store.rowCount = t.rows.length := hs.backend.size_eq
    show _ < t.handles.length + t.store.rowCount + 1
    omega
  have hprevails : Prevails (fun _ => True) t (delete notify h) fun _ t' =>
      ∀ id, (t.handle h).key = .stored id → t'.Spent id :=
    .look_bind (empties_deleteWithin hn _ t h _ ⟨hs, he, ha, hleft⟩ (.length_rows t) hdepth)
  obtain ⟨ht', hshields, -⟩ := (hprevails s hst).2 hlt
  exact ⟨ht'.exact, ht'.anchored, hshields⟩

end Action

end SymbolTable
