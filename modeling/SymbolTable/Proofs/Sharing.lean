import SymbolTable.Proofs.Inheritance

/-!
# How references are shared out

The references to an address are shared out among the symbols that are listed for it: none belongs
to two of them, and one that can belong to a symbol there does
(`Undisturbed.references_are_shared_out`). A symbol counts its references in three ways: all that
lead to its address if no other symbol lies there (`Table.counted`), else those that it owns, and of
these no more than it is asked for. All of them are read off one list (`answers_countOwned`), so the
answers agree (`Situated.tallies`).

Where no row lies, the only symbol that is listed is the derived one, which is primary; where rows
lie, each symbol is listed once (`Situated.exists_listing`), and what it holds is read off its id
and the designation.
-/

namespace SymbolTable

open SymbolTable.Action
open Table (upkeep)

variable {σ α : Type} {t t' : Table} {h : HandleId} {a : Address} {id : SymbolId} {r : Row} {x : Reference}

/-! ## Counting references -/

/-- The references that belong to the symbol of a handle. -/
def Table.share (t : Table) (h : HandleId) : List Reference :=
  (t.references.into (t.handle h).address).filter (t.handleOwns h)

/-- The references that are counted for the symbol of a handle: all that lead to its address if no
other symbol lies there. -/
def Table.counted (t : Table) (h : HandleId) : List Reference :=
  if (t.rows.filter (·.address = (t.handle h).address)).all (some ·.id = (t.handle h).id?) then
    t.references.into (t.handle h).address
  else t.share h

/-- The symbol of a handle is among those whose rows lie at its address, if any do. -/
def Table.Attends (t : Table) (h : HandleId) : Prop :=
  ∀ r ∈ t.rows, r.address = (t.handle h).address →
    ∃ x ∈ t.rows, x.address = (t.handle h).address ∧ some x.id = (t.handle h).id?

/-- In a list in which no id comes twice, all ids are the same if there are less than two. So
whether a symbol is alone at its address can be told from the number of rows there, if its own is
among them. -/
theorem Row.all_id_iff {rows : List Row} {id? : Option SymbolId} (hnodup : (rows.map (·.id)).Nodup)
    (hmem : ∀ r ∈ rows, ∃ x ∈ rows, some x.id = id?) :
    rows.all (some ·.id = id?) = true ↔ rows.length < 2 := by
  match rows with
  | [] => simp
  | [r] =>
    obtain ⟨_, hx, hid⟩ := hmem r (.head _)
    obtain rfl := List.mem_singleton.1 hx
    simp [hid]
  | r :: x :: rows =>
    have hne : r.id ≠ x.id := fun heq => (List.nodup_cons.1 hnodup).1 (List.mem_map.2 ⟨x, .head _, heq.symm⟩)
    refine ⟨fun hall => ?_, fun hlt => absurd hlt (by simp)⟩
    rw [List.all_eq_true] at hall
    have hr : some r.id = id? := of_decide_eq_true (hall r (.head _))
    have hx : some x.id = id? := of_decide_eq_true (hall x (.tail _ (.head _)))
    exact absurd (Option.some.inj (hr.trans hx.symm)) hne

/-- Where two rows lie, a symbol counts what belongs to it. Elsewhere it counts all there is. A
derived symbol attends where no row lies, and counts all there is. -/
theorem Table.counted_eq (hs : t.Sound) (hattends : t.Attends h) :
    t.counted h = if 2 ≤ (t.rows.filter (·.address = (t.handle h).address)).length then t.share h
      else t.references.into (t.handle h).address := by
  have hmem : ∀ r ∈ t.rows.filter (·.address = (t.handle h).address),
      ∃ x ∈ t.rows.filter (·.address = (t.handle h).address), some x.id = (t.handle h).id? := by
    intro r hr
    obtain ⟨hr, haddress⟩ := List.mem_filter.1 hr
    obtain ⟨x, hx, hxaddress, hid⟩ := hattends r hr (of_decide_eq_true haddress)
    exact ⟨x, List.mem_filter.2 ⟨hx, decide_eq_true hxaddress⟩, hid⟩
  have hnodup : ((t.rows.filter (·.address = (t.handle h).address)).map (·.id)).Nodup :=
    hs.backend.ascending_rows.nodup_ids.sublist (List.filter_sublist.map _)
  have hall := Row.all_id_iff hnodup hmem
  unfold counted
  split
  · rename_i halone
    rw [if_neg (Nat.not_le.2 (hall.1 halone))]
  · rename_i halone
    rw [if_pos (Nat.not_lt.1 fun hlt => halone (hall.2 hlt))]

namespace Action

section
variable (hb : t.store.backend.Sound) (hworks : t.store.Works)

include hb hworks

/-- Whether a symbol is alone at its address is read off the rows that lie there. -/
theorem answers_isAlone (a : Address) (id? : Option SymbolId) :
    Answers t (isAlone a id? : Action σ _) fun alone t' =>
      alone = (t.rows.filter (·.address = a)).all (some ·.id = id?) ∧ t' = t :=
  Ends.seq (.rowsAt hb (.ok (Answers.pure ⟨rfl, rfl⟩)) fun _ hfails => absurd hfails hworks.not_mayFail)

/-- However far it goes, counting goes along one list. With a limit it stops there, so the number is
that of the part of the list up to it. -/
theorem answers_countOwned (h : HandleId) (limit : Option Nat) :
    Answers t (countOwned h limit : Action σ _) fun n t' =>
      n = (limit.elim (t.counted h) (t.counted h).take).length ∧ t' = t := by
  refine .look_bind ((answers_isAlone hb hworks _ _).bind ?_)
  rintro _ _ ⟨rfl, rfl⟩
  exact .look_bind (.look_bind (Answers.pure ⟨rfl, rfl⟩))

variable (hopen : t.closed = false) (hready : t.IsReady h)

include hopen hready

/-- The references of a symbol are counted, as many as are counted for it. -/
theorem answers_referenceCount : Answers t (referenceCount h : Action σ _) fun n t' =>
    n = (t.counted h).length ∧ t' = t :=
  answers_current_of_isReady hopen hready (answers_countOwned hb hworks h none)

/-- Whether a symbol has at least so many references is answered by how many are counted for it,
though the count stops when it has seen enough. -/
theorem answers_hasReferences (n : Nat) : Answers t (hasReferences h n : Action σ _) fun some? t' =>
    some? = decide (n ≤ (t.counted h).length) ∧ t' = t := by
  refine answers_current_of_isReady hopen hready ((answers_countOwned hb hworks h (some n)).map ?_)
  rintro _ _ ⟨rfl, rfl⟩
  refine ⟨?_, rfl⟩
  rw [Option.elim_some, List.length_take, decide_eq_decide]
  omega

end

/-- Where no row lies in memory, there is a derived symbol. Its handle was in the pool or is made
now, and is ready in either case. -/
theorem answers_derivedAt_of_derivable (hs : t.Sound) (he : t.Exact) (hworks : t.store.Works)
    (hderivable : t.Derivable a) : Answers t (derivedAt a : Action σ _) fun found t' =>
      ∃ h, found = some h ∧ t'.IsReady h ∧ (t'.handle h).key = .derived a := by
  unfold derivedAt
  rw [hderivable.memory]
  refine Ends.seq (.rowsAt hs.backend (.ok ?_) fun _ hfails => absurd hfails hworks.not_mayFail)
  rw [Table.isEmpty_rowsAt_iff.2 hderivable.vacant]
  refine Answers.look_bind ?_
  split
  · rename_i h hget
    obtain ⟨hlive, hkey⟩ := (he.pooled _ h).1 hget
    have hrow := (Handle.isDerived_iff.1 ((hs.inOrder h).derived_of_key hkey hlive).1).1
    exact Answers.pure ⟨h, rfl, ⟨hlive, .inl hrow⟩, hkey⟩
  · refine Answers.bind (P := fun made? t' => made? = some (Handle.derived a) ∧ t' = t)
      (Answers.pure ⟨rfl, rfl⟩) ?_
    rintro _ t ⟨rfl, rfl⟩
    refine Answers.look_bind (Ends.change_bind (Answers.pure ⟨_, rfl, ?_⟩))
    have heq : (t.adopt (.derived a) (Handle.derived a)).handle t.handles.length = Handle.derived a := by
      rw [Table.handle_adopt, if_pos rfl]
    refine ⟨⟨?_, .inl ?_⟩, ?_⟩ <;> rw [heq] <;> rfl

/-- Where no row lies, the derived symbol is listed if there is one and something refers to it. A
derived symbol to which nothing refers is not listed, so in the first case there is nothing that
could be shared out. -/
theorem answers_symbolsAt_of_vacant (hs : t.Sound) (he : t.Exact) (hworks : t.store.Works)
    (hvacant : t.Vacant a) : Answers t (symbolsAt a : Action σ _) fun handles t' =>
      handles = [] ∧ (t.references.into a = [] ∨ a.isMemory = false) ∨
      ∃ h, handles = [h] ∧ t'.IsReady h ∧ (t'.handle h).key = .derived a := by
  refine Ends.seq (.rowsAt hs.backend (.ok ?_) fun _ hfails => absurd hfails hworks.not_mayFail)
  rw [if_pos (Table.isEmpty_rowsAt_iff.2 hvacant)]
  refine Answers.look_bind ?_
  split
  · rename_i hcount
    exact Answers.pure (.inl ⟨rfl, .inl (List.length_eq_zero_iff.1 hcount)⟩)
  · by_cases hmemory : a.isMemory = true
    · refine (answers_derivedAt_of_derivable hs he hworks ⟨hvacant, hmemory⟩).bind ?_
      rintro _ t' ⟨h, rfl, hready, hkey⟩
      exact Answers.pure (.inr ⟨h, rfl, hready, hkey⟩)
    · have hmemory : a.isMemory = false := Bool.eq_false_iff.2 hmemory
      unfold derivedAt
      rw [hmemory]
      exact Answers.bind (P := fun found? t' => found? = none ∧ t' = t) (Answers.pure ⟨rfl, rfl⟩)
        (by rintro _ _ ⟨rfl, rfl⟩; exact Answers.pure (.inl ⟨rfl, .inr rfl⟩))

end Action

/-! ## Answers that agree -/

/-- A question is answered so, and the table stays as it is. -/
def Situated.Replies (s : Situated σ) (a : Action σ α) (x : α) : Prop :=
  ∃ s', a.run s = (.ok x, s') ∧ s'.table = s.table

/-- An answer that changes nothing is a reply, whatever is around the table. -/
theorem Action.Answers.replies {s : Situated σ} {action : Action σ α} {y : α}
    (hanswers : Answers s.table action fun x t' => x = y ∧ t' = s.table) : s.Replies action y := by
  obtain ⟨_, s', hrun, rfl, heq⟩ := hanswers.exists_run
  exact ⟨s', hrun, heq⟩

/-- Asked for its references, the symbol of a handle lists those that were found, and counts so
many. It has references if that is at least one, and several if it is at least two. -/
structure Situated.Tallies (s : Situated σ) (h : HandleId) (found : List Reference) (n : Nat) : Prop where
  lists : s.Replies (references Monitor.silent h ()) (found, ())
  counts : s.Replies (referenceCount h) n
  some : s.Replies (hasReferences h 1) (decide (1 ≤ n))
  several : s.Replies (hasReferences h 2) (decide (2 ≤ n))

/-- A symbol whose handle is ready tallies the references that are its share, and counts those that
are counted for it. -/
theorem Situated.tallies {s : Situated σ} (ht : s.table.Settled) (hready : s.table.IsReady h) :
    s.Tallies h (s.table.share h) (s.table.counted h).length where
  lists := (answers_references ht.opened hready).replies
  counts := (answers_referenceCount ht.sound.backend ht.regular.works ht.opened hready).replies
  some := (answers_hasReferences ht.sound.backend ht.regular.works ht.opened hready 1).replies
  several := (answers_hasReferences ht.sound.backend ht.regular.works ht.opened hready 2).replies

/-- A symbol lists a reference exactly if it is in its share. There is only one list that it answers
with, so to be on some list is to be on this one. -/
theorem Situated.attributes_iff_mem_share {s : Situated σ} (ht : s.table.Settled)
    (hready : s.table.IsReady h) : s.Attributes h x ↔ x ∈ s.table.share h := by
  obtain ⟨s', hrun, -⟩ := (s.tallies ht hready).lists
  constructor
  · rintro ⟨_, _, hrun', hx⟩
    cases hrun.symm.trans hrun'
    exact hx
  · exact fun hx => ⟨_, s', hrun, hx⟩

/-! ## Shares -/

/-- Somebody at the address can hold the reference: its owner lies there, or it belongs to the
primary symbol and there is one. -/
def Table.Holdable (t : Table) (a : Address) (x : Reference) : Prop :=
  (∃ r ∈ t.rows, r.address = a ∧ x.owner = .symbol r.id) ∨
    x.owner = .primary ∧ ((∃ id, t.facts.primaryAt a = some id) ∨ t.Derivable a)

/-- Handles that were listed for an address share out the references to it. -/
structure Situated.Shares (s : Situated σ) (a : Address) (handles : List HandleId) (s₁ : Situated σ) :
    Prop where
  nodup : handles.Nodup
  /-- Each lists references to the address in their order, and counts them. Where less than two rows
  lie, it counts all of them. -/
  tallies : ∀ h ∈ handles, ∃ found n, s₁.Tallies h found n ∧
    found = (s.table.references.into a).filter (· ∈ found) ∧
    n = if 2 ≤ (s.table.rows.filter (·.address = a)).length then found.length
      else (s.table.references.into a).length
  /-- No reference is listed by two of them. -/
  apart : ∀ h ∈ handles, ∀ k ∈ handles, ∀ x, s₁.Attributes h x → s₁.Attributes k x → k = h
  /-- A reference that somebody can hold is listed. -/
  held : ∀ x ∈ s.table.references.into a, s.table.Holdable a x →
    ∃! h, h ∈ handles ∧ s₁.Attributes h x

section
variable {s s₁ : Situated σ}

/-- The share of a symbol at an address, and how it counts it. What it lists and how much it counts
are read off the table after the listing, which has the same rows and references as the one
before. -/
theorem Situated.exists_tallies (ht : s₁.table.Settled) (hready : s₁.table.IsReady h)
    (haddress : (s₁.table.handle h).address = a) (hattends : s₁.table.Attends h)
    (hrows : s₁.table.rows = s.table.rows) (hreferences : s₁.table.references = s.table.references) :
    ∃ found n, s₁.Tallies h found n ∧
      found = (s.table.references.into a).filter (· ∈ found) ∧
      n = if 2 ≤ (s.table.rows.filter (·.address = a)).length then found.length
        else (s.table.references.into a).length := by
  refine ⟨_, _, s₁.tallies ht hready, ?_, ?_⟩
  · rw [Table.share, haddress, hreferences]
    refine List.filter_congr fun x hx => ?_
    simp [hx]
  · rw [Table.counted_eq ht.sound hattends, haddress, hrows, hreferences]
    split <;> rfl

/-- Where no row lies, the derived symbol has all references to its address, or nobody is listed and
there are none. -/
theorem Situated.shares_of_vacant (ht : s.table.Settled) (hvacant : s.table.Vacant a) :
    ∃ handles s₁, (symbolsAt a).run s = (.ok handles, s₁) ∧ s.Shares a handles s₁ := by
  have hupkept := follows_symbolsAt (σ := σ) (c := .upkept) a s.table ht.sound
  obtain ⟨handles, s₁, hrun, hlisted, hrel⟩ :=
    ((answers_symbolsAt_of_vacant ht.sound ht.exact ht.regular.works hvacant).and hupkept).exists_run
  have ht₁ := ht.of_upkept hrel
  have hrows : s₁.table.rows = s.table.rows :=
    (Course.path_of_upkept hrel).rows_eq_of_upkeep
  have hreferences := Course.references_of_upkept hrel
  -- nothing is designated, and no owner lies here, so what can be held is the derived symbol's
  have hholdable {x : Reference} : s.table.Holdable a x → x.owner = .primary ∧ a.isMemory = true := by
    rintro (⟨r, hr, haddress, -⟩ | ⟨howner, ⟨id, hprimary⟩ | hderivable⟩)
    · exact absurd haddress (hvacant r hr)
    · cases hprimary.symm.trans (ht.regular.designated.primaryAt_of_vacant hvacant)
    · exact ⟨howner, hderivable.memory⟩
  refine ⟨handles, s₁, hrun, ?_⟩
  rcases hlisted with ⟨rfl, hnone⟩ | ⟨k, rfl, hready, hkey⟩
  · refine ⟨.nil, nofun, nofun, fun x hx hheld => ?_⟩
    rcases hnone with hnone | hmemory
    · rw [hnone] at hx
      cases hx
    · cases hmemory.symm.trans (hholdable hheld).2
  · have haddress := ((ht₁.sound.inOrder k).derived_of_key hkey hready.live).2
    have hid : (s₁.table.handle k).id? = none := by
      rw [Handle.id?, hkey]
      rfl
    refine ⟨List.nodup_singleton k, fun h hh => ?_, fun h hh i hi x _ _ => ?_, fun x hx hheld => ?_⟩
    · obtain rfl := List.mem_singleton.1 hh
      refine Situated.exists_tallies ht₁ hready haddress (fun r hr hra => ?_) hrows hreferences
      exact absurd (hra.trans haddress) (hvacant r (hrows ▸ hr))
    · rw [List.mem_singleton.1 hh, List.mem_singleton.1 hi]
    · refine ⟨k, ⟨.head _, ?_⟩, fun i hi => List.mem_singleton.1 hi.1⟩
      rw [Situated.attributes_iff_mem_share ht₁ hready, Table.share, haddress, hreferences]
      refine List.mem_filter.2 ⟨hx, ?_⟩
      rw [Table.handleOwns, Table.owns, (hholdable hheld).1, Table.isPrimary, hid]

/-- Where rows lie, their symbols share out the references: each of them is listed once, and the
primary one has those that belong to nobody else. -/
theorem Situated.shares_of_occupied (ht : s.table.Settled) (hoccupied : ¬ s.table.Vacant a) :
    ∃ handles s₁, (symbolsAt a).run s = (.ok handles, s₁) ∧ s.Shares a handles s₁ := by
  obtain ⟨handles, s₁, hrun, hlists⟩ := Situated.exists_listing ht hoccupied
  have hupkept := follows_symbolsAt (σ := σ) (c := .upkept) a s.table ht.sound
  obtain ⟨_, _, hrun', hserves, hrel⟩ := ((answers_symbolsAt ht.sound ht.regular.works ht.kinds ht.exact
    a).and hupkept).exists_run
  cases hrun.symm.trans hrun'
  have ht₁ := ht.of_upkept hrel
  have hrows : s₁.table.rows = s.table.rows :=
    (Course.path_of_upkept hrel).rows_eq_of_upkeep
  -- what is listed is held, and one that holds it is the only one
  have hholder {r : Row} {x : Reference} (hr : r ∈ s.table.rows) (hra : r.address = a)
      (hholds : s.table.Holds a x r.id) (hx : x ∈ s.table.references.into a) :
      ∃! h, h ∈ handles ∧ s₁.Attributes h x := by
    obtain ⟨h, ⟨hh, hkey⟩, honly⟩ := hlists.one r hr hra
    refine ⟨h, ⟨hh, (hlists.attributes h hh _ hkey x).2 ⟨hx, hholds⟩⟩, fun k hk => ?_⟩
    obtain ⟨p, -, -, hpkey⟩ := hlists.stored k hk.1
    have hp : p.id = r.id := (hholds.iff_eq _).1 ((hlists.attributes k hk.1 _ hpkey x).1 hk.2).2
    exact honly k ⟨hk.1, hp ▸ hpkey⟩
  refine ⟨handles, s₁, hrun, hlists.nodup, fun h hh => ?_, fun h hh k hk x hx hx' => ?_,
    fun x hx hheld => ?_⟩
  · obtain ⟨r, hr, hra, hkey⟩ := hlists.stored h hh
    have hserves := (hserves.serves h hh _ hkey).1
    have hget : s₁.table.row? r.id = some r :=
      (Table.row?_congr hrows r.id).trans (Table.row?_id ht.sound.backend hr)
    have haddress : (s₁.table.handle h).address = a :=
      ((ht₁.sound.inOrder h).address r (ht₁.exact.row_of_key ht₁.sound hserves.key hget)).trans hra
    refine Situated.exists_tallies ht₁ hserves.ready haddress (fun _ _ _ => ?_) hrows
      (Course.references_of_upkept hrel)
    exact ⟨r, hrows ▸ hr, hra.trans haddress.symm, (Handle.id?_eq_some_iff.2 hkey).symm⟩
  · obtain ⟨r, hr, hra, hkey⟩ := hlists.stored h hh
    obtain ⟨p, hp, hpa, hpkey⟩ := hlists.stored k hk
    have hholds := ((hlists.attributes h hh _ hkey x).1 hx).2
    have hholds' := ((hlists.attributes k hk _ hpkey x).1 hx').2
    have hid : p.id = r.id := (hholds.iff_eq p.id).1 hholds'
    obtain ⟨_, -, honly⟩ := hlists.one r hr hra
    exact (honly k ⟨hk, hid ▸ hpkey⟩).trans (honly h ⟨hh, hkey⟩).symm
  · rcases hheld with ⟨r, hr, hra, howner⟩ | ⟨howner, ⟨id, hprimary⟩ | hderivable⟩
    · exact hholder hr hra (.inl howner) hx
    · obtain ⟨r, -, hget, hra, -⟩ := ht.regular.designated a id hprimary
      exact hholder (Table.mem_of_row? hget) hra (.inr ⟨howner, Table.id_of_row? hget ▸ hprimary⟩) hx
    · exact absurd hderivable.vacant hoccupied

end

/-- **References are shared out.** Whatever was done to a table with the usual rules since it was
opened empty: the symbols that are listed for an address share out the references to it. No
reference is listed by two of them. One of them lists it if its owner lies there, if it belongs to
the primary symbol and one is designated there, or if it belongs to the primary symbol and the
address lies in memory without rows. Each of them has a reference if it counts one, and several if
it counts two, and it counts the references that it lists wherever two rows lie. The store works,
listeners do not act on the table, rows and designations are changed through moves alone, derived
symbols are not relocated, and there are ids left. -/
theorem Undisturbed.references_are_shared_out {s₀ s : Situated σ} (hnew : s₀.table.IsNew .standard)
    (hworks : s₀.table.store.Works) (hrun : Undisturbed s₀ s) (hlt : s.table.drawn < UInt64.size - 1)
    (a : Address) :
    ∃ handles s₁, (symbolsAt a).run s = (.ok handles, s₁) ∧ s.Shares a handles s₁ := by
  have ht := hrun.settled hnew hworks hlt
  by_cases hvacant : s.table.Vacant a
  · exact Situated.shares_of_vacant ht hvacant
  · exact Situated.shares_of_occupied ht hvacant

/-- Two labels lie at an address, and a third one was deleted there. Of four references, two belong
to the label that is designated, one to the other, and one to nobody, since its owner is gone. -/
theorem Undisturbed.references_are_shared_out_of_two :
    let s₀ : Situated Unit := ⟨.empty default .standard, (), 0⟩
    let new (name : String) : Move :=
      .create ⟨name, .label, .ram 16, .global, .userDefined, 0, 0, none⟩
    let go (s : Situated Unit) (m : Move) := ((m.action Listener.idle).run s).2
    let s₁ := [new "x", new "y", new "z", .edit 2 .delete].foldl go s₀
    let owners : List Owner :=
      [.primary, .symbol ⟨1, by decide⟩, .symbol ⟨2, by decide⟩, .symbol ⟨3, by decide⟩]
    let references := owners.foldl (fun x owner => x.add ⟨.ram 64, .ram 16, .jump, owner⟩) .empty
    let s : Situated Unit := { s₁ with table := { s₁.table with references := references } }
    s₀.table.IsNew .standard ∧ s₀.table.store.Works ∧ Undisturbed s₀ s ∧
      s.table.drawn < UInt64.size - 1 ∧
      ((referenceCount 0).run s).1 = .ok 2 ∧ ((referenceCount 1).run s).1 = .ok 1 ∧
      ∃ handles s₁, (symbolsAt (.ram 16)).run s = (.ok handles, s₁) ∧ s.Shares (.ram 16) handles s₁ := by
  intro s₀ new go s₁ owners references s
  have hnew : s₀.table.IsNew .standard := .memory _ _ _
  have hworks : s₀.table.store.Works := fun _ _ _ => rfl
  have hidle (e : Event) (x : Situated Unit) : x.table.Near (Listener.idle e x).table :=
    ⟨⟨rfl, rfl, rfl, rfl, rfl, rfl⟩, rfl⟩
  have hrun₁ : Undisturbed s₀ s₁ :=
    .move (.move (.move (.move .refl rfl hidle) rfl hidle) rfl hidle) rfl hidle
  have hnear (x : Situated Unit) : x.table.Near { x.table with references := references } :=
    ⟨⟨rfl, rfl, rfl, rfl, rfl, rfl⟩, rfl⟩
  have hrun : Undisturbed s₀ s := .near hrun₁ (hnear s₁)
  have hlt : s.table.drawn < UInt64.size - 1 := by decide
  exact ⟨hnew, hworks, hrun, hlt, by decide +kernel, by decide +kernel,
    Undisturbed.references_are_shared_out hnew hworks hrun hlt _⟩

end SymbolTable
