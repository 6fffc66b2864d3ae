import SymbolTable.Proofs.Action.Finding
import SymbolTable.Proofs.Designation
import SymbolTable.Proofs.ScopeForest

/-!
# Primary symbols

At every address at most one symbol is designated as the primary one. As long as the store works,
nobody acts on the table in the middle of a move, and neither rows nor designations are changed
behind its back, the designated symbol is stored at the address and may be primary
(`Table.Designated`). So it is among the symbols that are listed there, which is why it comes first
in the list (`answers_symbolsAt`), and it alone answers that it is primary
(`Undisturbed.primaries_are_sound`).
-/

namespace SymbolTable

open SymbolTable.Action
open Table (Path Step upkeep pruning)

variable {σ : Type} {t t' : Table} {notify : Listener σ} {h : HandleId} {a : Address} {id : SymbolId}

namespace Action

/-! ## Lists that are sorted or found one by one -/

/-- The place of an id in the order in which `primary?` comes first. -/
def place (primary? id? : Option SymbolId) : Nat :=
  if id? = primary? then 0 else id?.elim 1 (·.val.toNat + 1)

/-- Only the primary symbol comes in the first place. The others come at the places of their ids,
which begin with one. -/
theorem place_eq_zero_iff {primary? id? : Option SymbolId} :
    place primary? id? = 0 ↔ id? = primary? := by
  unfold place
  by_cases heq : id? = primary?
  · simp [heq]
  · cases id? <;> simp [heq]

/-- No id is zero, so a stored symbol has another place than one without an id. -/
theorem toNat_ne_zero (id : SymbolId) : id.val.toNat ≠ 0 :=
  fun h => id.ne_zero (UInt64.toNat_inj.1 h)

/-- Symbols are ordered by their places: the primary one comes first, and the others by their ids.
One without an id comes between the primary symbol and those with ids, so the order is that of three
groups. -/
theorem comesFirst_iff {primary? a b : Option SymbolId} :
    comesFirst primary? a b = true ↔ place primary? a ≤ place primary? b := by
  unfold comesFirst place
  by_cases ha : a = primary?
  · by_cases hb : b = primary?
    · rw [ha, hb]
      cases primary? <;> simp [SymbolId.le]
    · simp [ha, hb]
  · by_cases hb : b = primary?
    · cases a <;> simp [ha, hb]
    · cases a with
      | none => cases b <;> simp [ha, hb]
      | some a =>
        cases b with
        | none => simp [ha, hb, toNat_ne_zero]
        | some b => simp [ha, hb, SymbolId.le, UInt64.le_iff_toNat_le]

/-- No two ids have the same place. The designated one is at place zero, and each other one at the
number of its id, which is not zero. -/
theorem place_injective {primary? a b : Option SymbolId} (h : place primary? a = place primary? b) :
    a = b := by
  by_cases ha : a = primary?
  · rw [place_eq_zero_iff.2 ha] at h
    exact ha.trans (place_eq_zero_iff.1 h.symm).symm
  · have hb : b ≠ primary? := fun hb => ha (place_eq_zero_iff.1 (h.trans (place_eq_zero_iff.2 hb)))
    rw [place, if_neg ha, place, if_neg hb] at h
    cases a <;> cases b <;> simp_all [toNat_ne_zero, UInt64.toNat_inj, SymbolId.ext_iff]

/-- The order in which symbols are listed is transitive, as the sort needs it. -/
theorem comesFirst_trans (primary? a b c : Option SymbolId)
    (hab : comesFirst primary? a b = true) (hbc : comesFirst primary? b c = true) :
    comesFirst primary? a c = true :=
  comesFirst_iff.2 (Nat.le_trans (comesFirst_iff.1 hab) (comesFirst_iff.1 hbc))

/-- Of two symbols one comes first, as the sort needs it. -/
theorem comesFirst_total (primary? a b : Option SymbolId) :
    (comesFirst primary? a b || comesFirst primary? b a) = true := by
  rw [Bool.or_eq_true, comesFirst_iff, comesFirst_iff]
  exact Nat.le_total _ _

/-- If the primary symbol is in the list, it comes first once the list is sorted. The sort is stable
and the order total, so the first of the sorted list comes before all others, and only the primary
symbol has the first place. -/
theorem head?_mergeSort {primary? : Option SymbolId} (key : HandleId → Option SymbolId)
    {found : List HandleId} (hmem : h ∈ found) (hkey : key h = primary?) :
    ∃ k, (found.mergeSort fun x y => comesFirst primary? (key x) (key y)).head? = some k ∧
      key k = primary? := by
  have hsorted := List.pairwise_mergeSort (fun x y z => comesFirst_trans primary? (key x) (key y) (key z))
    (fun x y => comesFirst_total primary? (key x) (key y)) found
  have hmem : h ∈ found.mergeSort fun x y => comesFirst primary? (key x) (key y) :=
    List.mem_mergeSort.2 hmem
  cases hlist : found.mergeSort fun x y => comesFirst primary? (key x) (key y) with
  | nil =>
    rw [hlist] at hmem
    cases hmem
  | cons k ks =>
    rw [hlist] at hmem hsorted
    refine ⟨k, rfl, ?_⟩
    rcases List.mem_cons.1 hmem with rfl | hmem
    · exact hkey
    · have hle := comesFirst_iff.1 ((List.pairwise_cons.1 hsorted).1 h hmem)
      rw [place_eq_zero_iff.2 hkey] at hle
      exact place_eq_zero_iff.1 (Nat.le_zero.1 hle)

/-- To every member of a list corresponds one of the other list. The induction is along the two
lists. It is used for the handles of a list and the ids or rows that they stand for. -/
theorem exists_of_forall₂ {α β : Type} {R : α → β → Prop} {xs : List α} {ys : List β}
    (hall : List.Forall₂ R xs ys) {x : α} (hx : x ∈ xs) : ∃ y ∈ ys, R x y := by
  induction hall with
  | nil => cases hx
  | cons hxy _ ih =>
    rcases List.mem_cons.1 hx with rfl | hx
    · exact ⟨_, .head _, hxy⟩
    · obtain ⟨y, hy, hxy⟩ := ih hx
      exact ⟨y, .tail _ hy, hxy⟩

end Action

/-! ## Listing the symbols at an address -/

/-- A list of the symbols at an address. The stored ones are ready, and the one that is designated
comes first. -/
structure Table.Lists (t : Table) (a : Address) (handles : List HandleId) : Prop where
  serves : ∀ h ∈ handles, ∀ id, (t.handle h).key = .stored id →
    t.Serves h id ∧ ∃ r, t.row? id = some r ∧ r.address = a
  first : ∀ id, t.facts.primaryAt a = some id → (∃ r ∈ t.rows, r.id = id ∧ r.address = a) →
    ∃ h, handles.head? = some h ∧ (t.handle h).key = .stored id

namespace Action

section
variable (hs : t.Sound) (hworks : t.store.Works)

include hs hworks

/-- Where the store works, it is answered what the symbol derived from an address is, or that there
is none. There is none outside memory or where a row lies. Elsewhere its handle is pooled already or
is made now. -/
theorem answers_derivedAt (a : Address) : Answers t (derivedAt a : Action σ _) fun _ _ => True := by
  unfold derivedAt
  split
  · exact Answers.pure trivial
  · refine Ends.seq (.rowsAt hs.backend (.ok ?_) fun _ hfails => absurd hfails hworks.not_mayFail)
    split
    · exact Answers.pure trivial
    · refine Answers.look_bind ?_
      split
      · exact Answers.pure trivial
      · refine Answers.bind (P := fun made? _ => made? = some (Handle.derived a)) (Answers.pure rfl) ?_
        rintro _ t' rfl
        exact Answers.look_bind (Ends.change_bind (Answers.pure trivial))

variable (hkinds : ∀ r ∈ t.rows, ∃ k, r.kind? = some k)

include hkinds

/-- Where rows lie, the handles of their symbols are listed, the one that is designated first. All
of them are found, since their rows stand for kinds, and then sorted, with the designation as it is.
The sort does not add or lose any. -/
theorem answers_symbolsAt_of_occupied (hp : t.Pools) (hoccupied : ¬ t.Vacant a) :
    Answers t (symbolsAt a : Action σ _) fun handles t' => ∃ found : List HandleId,
      handles = found.mergeSort (fun h k =>
        comesFirst (t.facts.primaryAt a) (t'.handle h).id? (t'.handle k).id?) ∧
      List.Forall₂ t'.Offers found ((t.rows.filter (·.address = a)).map (·.id)) := by
  refine Ends.seq (.rowsAt hs.backend (.ok ?_) fun _ hfails => absurd hfails hworks.not_mayFail)
  split
  · rename_i hempty
    exact absurd (Table.isEmpty_rowsAt_iff.1 hempty) hoccupied
  · refine Answers.look_bind ?_
    have hids : ∀ id ∈ (t.rows.filter (·.address = a)).map (·.id), t.HasSymbol id := by
      intro id hid
      obtain ⟨r, hr, rfl⟩ := List.mem_map.1 hid
      have hr := List.mem_of_mem_filter hr
      obtain ⟨k, hk⟩ := hkinds r hr
      exact ⟨r, k, Table.row?_id hs.backend hr, hk⟩
    refine (answers_lookupEach hs hworks hp _ hids).bind ?_
    intro found t' hall
    exact Ends.look ⟨_, rfl, found, rfl, hall⟩

/-- Where the store works, all symbols at an address are listed, the one that is designated first.
Where no row lies, the derived one is all there is. -/
theorem answers_symbolsAt (he : t.Exact) (a : Address) :
    Answers t (symbolsAt a : Action σ _) fun handles t' => t'.Lists a handles := by
  by_cases hvacant : t.Vacant a
  · -- no row lies there, so nothing that is listed is stored
    refine Ends.seq (.rowsAt hs.backend (.ok ?_) fun _ hfails => absurd hfails hworks.not_mayFail)
    rw [if_pos (Table.isEmpty_rowsAt_iff.2 hvacant)]
    refine Answers.look_bind ?_
    split
    · refine Answers.pure ⟨nofun, ?_⟩
      rintro id - ⟨r, hr, -, haddress⟩
      exact absurd haddress (hvacant r hr)
    · have hupkept := follows_derivedAt (σ := σ) (c := .upkept) a t hs
      refine (((answers_derivedAt hs hworks a).and (ends_derivedAt hs he a)).and hupkept).bind ?_
      rintro found t' ⟨⟨-, hkey⟩, hrel⟩
      refine Answers.pure ⟨fun h hh id hstored => ?_, ?_⟩
      · rw [Option.mem_toList] at hh
        cases hstored.symm.trans (hkey h (congrArg _ hh))
      · rintro id - ⟨r, hr, -, haddress⟩
        rw [Table.rows, (Course.path_of_upkept hrel).upkeep.1] at hr
        exact absurd haddress (hvacant r hr)
  · have hupkept := follows_symbolsAt (σ := σ) (c := .upkept) a t hs
    refine ((answers_symbolsAt_of_occupied hs hworks hkinds he.pooled.pools hvacant).and hupkept).imp ?_
    rintro _ t' ⟨⟨found, rfl, hall⟩, hrel⟩
    have hrows : t'.rows = t.rows := (Course.path_of_upkept hrel).rows_eq_of_upkeep
    have hmem : ∀ r, r ∈ t.rows.filter (·.address = a) ↔ r ∈ t.rows ∧ r.address = a := fun r => by simp
    rw [← Course.facts_of_upkept hrel]
    refine ⟨fun h hh id hstored => ?_, fun id hprimary hrow => ?_⟩
    · obtain ⟨i, hi, hserves⟩ := exists_of_forall₂ hall (List.mem_mergeSort.1 hh)
      obtain ⟨r, hr, rfl⟩ := List.mem_map.1 hi
      obtain ⟨hr, haddress⟩ := (hmem r).1 hr
      cases hstored.symm.trans hserves.key
      exact ⟨hserves.toServes, r, (Table.row?_congr hrows _).trans (Table.row?_id hs.backend hr), haddress⟩
    · obtain ⟨r, hr, rfl, haddress⟩ := hrow
      rw [hrows] at hr
      have hid : r.id ∈ (t.rows.filter (·.address = a)).map (·.id) :=
        List.mem_map_of_mem ((hmem r).2 ⟨hr, haddress⟩)
      obtain ⟨h, hh, hserves⟩ := exists_of_forall₂ hall.flip hid
      have hkey : (t'.handle h).id? = t'.facts.primaryAt a := by
        rw [hprimary, Handle.id?_eq_some_iff]
        exact hserves.key
      obtain ⟨k, hhead, hk⟩ := head?_mergeSort (fun x => (t'.handle x).id?) hh hkey
      rw [hprimary] at hk
      exact ⟨k, hhead, Handle.id?_eq_some_iff.1 hk⟩

end

/-! ## The primary symbol -/

section
variable (hs : t.Sound) (he : t.Exact) (hworks : t.store.Works)
  (hprimary : t.facts.primaryAt a = some id) (hget : t.HasSymbol id)

include hs he hworks hprimary hget

/-- The symbol that is designated is found as the primary one. Its row is there, so its handle is
looked up like that of any other stored symbol. -/
theorem answers_primaryAt : Answers t (primaryAt a : Action σ _) fun found t' =>
    ∃ h, found = some h ∧ t'.Serves h id := by
  unfold primaryAt
  refine Answers.look_bind ?_
  rw [hprimary]
  refine (answers_lookup hs hworks he.pooled.pools hget).bind ?_
  rintro _ t' ⟨h, rfl, hoffers⟩
  exact Answers.pure ⟨h, rfl, hoffers.toServes⟩

/-- The symbol that is designated is found as the primary one, under the handle that serves for it.
An exact table has no other. -/
theorem answers_primaryAt_of_serves (hserves : t.Serves h id) :
    Answers t (primaryAt a : Action σ _) fun found _ => found = some h := by
  have hfollows := follows_primaryAt (σ := σ) (c := .steps upkeep) a t hs
  refine ((answers_primaryAt hs he hworks hprimary hget).and hfollows).imp ?_
  rintro _ t' ⟨⟨k, rfl, hk⟩, hpath⟩
  have he' : t'.Exact := Path.exact hpath not_false not_false hs False.elim he
  rw [he'.eq_of_serves (hserves.of_upkeep hpath) hk]

end

/-- A symbol whose handle is ready tells whether it is primary, and nothing changes. It is read off
the facts. The row is not needed for it, as the handle was ready. -/
theorem answers_isPrimary_of_isReady (hopen : t.closed = false) (hready : t.IsReady h) :
    Answers t (answer h .isPrimary : Action σ _) fun reply t' => reply = .flag (t.isPrimary h) ∧ t' = t := by
  have hlook : Answers t (look (·.isPrimary h) : Action σ _) fun b t' => b = t.isPrimary h ∧ t' = t :=
    Ends.look ⟨_, rfl, rfl, rfl⟩
  refine (answers_current_of_isReady hopen hready hlook).map ?_
  rintro _ t' ⟨rfl, rfl⟩
  exact ⟨rfl, rfl⟩

section
variable (he : t.Exact) (hserves : t.Serves h id)

include he hserves

variable (hs : t.Sound) (hd : t.Designated)

include hs hd

/-- A stored symbol is primary if it is the one that is designated where it lies. The handle has the
row that is stored, so it looks for the designation at the right address and under the right id. -/
theorem isPrimary_eq {r : Row} (hget : t.row? id = some r) :
    t.isPrimary h = decide (t.facts.primaryAt r.address = some id) := by
  obtain rfl := Table.id_of_row? hget
  have hrow := he.row_of_key hs hserves.key hget
  have hid : (t.handle h).id? = some r.id := Handle.id?_eq_some_iff.2 hserves.key
  unfold Table.isPrimary
  rw [hid, (hs.inOrder h).address r hrow]
  dsimp only
  by_cases hprimary : t.facts.primaryAt r.address = some r.id
  · -- being designated, it is of a kind that may be primary
    obtain ⟨x, k, hget', -, hk, hable⟩ := hd _ _ hprimary
    cases hget'.symm.trans hget
    cases hk.symm.trans (Kind.ofTag?_eq_some_iff.2 ((hs.inOrder h).tag r hrow))
    simp [hprimary, hable]
  · simp [hprimary]

end

end Action

/-! ## Runs that are not disturbed -/

/-- The rows and the handles are the same, and so are the designations. -/
structure Table.Near (t t' : Table) : Prop where
  beside : t.Beside t'
  facts : t'.facts = t.facts

/-- On a course that is aloof, a listener may be told that does not act on the table. -/
theorem Action.Heeds.of_near {c : Course} {notify : Listener σ} (haloof : c.Aloof)
    (hnotify : ∀ e (x : Situated σ), x.table.Near (notify e x).table) : Heeds c notify :=
  .of_deaf haloof.deaf fun e s hs => haloof hs (hnotify e s).beside (hnotify e s).facts

/-- Moves, one after the other, with listeners that do not act on the table. -/
inductive Undisturbed : Situated σ → Situated σ → Prop where
  | refl {s : Situated σ} : Undisturbed s s
  | near {s s₁ s₂ : Situated σ} (hrun : Undisturbed s s₁) (hnear : s₁.table.Near s₂.table) :
      Undisturbed s s₂
  | move {s s₁ : Situated σ} {notify : Listener σ} {m : Move} (hrun : Undisturbed s s₁)
      (hm : m.keepsForest false s₁.table)
      (hnotify : ∀ e (x : Situated σ), x.table.Near (notify e x).table) :
      Undisturbed s ((m.action notify).run s₁).2

/-- Every move through the table keeps it regular, with a listener that does not act on the table.
Deletions are taken along the course of their own deeds first, and moves with an address of their
own along the lemmas on that. -/
theorem Move.ends_regular (ht : t.Sound) {m : Move} (hm : m.keepsForest false t)
    (hnotify : ∀ e (x : Situated σ), x.table.Near (notify e x).table) :
    Ends t (m.action notify) fun _ t' => (Course.regular fun _ => True).rel t t' := by
  have hheeds {may : Deed → Prop} : Heeds (.regular may) notify :=
    .of_near Course.aloof_regular hnotify
  by_cases hdelete : ∃ k, m = .edit k .delete
  · obtain ⟨k, rfl⟩ := hdelete
    refine Ends.rel_map (Ends.rel_map ?_)
    have hdelete := follows_delete (c := .regular pruning) hheeds Course.regular_removes k t ht
    exact hdelete.imp fun _ _ hrel => hrel.regular_mono fun _ _ => trivial
  · refine Move.ends_rel hheeds Course.regular_designates ht ?_
    exact Move.permitted_keepsForest hm (fun k hk => hdelete ⟨k, hk⟩) (Course.regular_writes trivial)
      (Course.regular_allows_readdress trivial)

namespace Undisturbed

variable {s s₀ : Situated σ}

/-- A run that is undisturbed leads along the course on which tables stay regular. Each of its moves
is on it, and so is what goes on outside the table. The induction is on the run. -/
theorem rel (hrun : Undisturbed s₀ s) (hs : s₀.table.Sound) :
    (Course.regular fun _ => True).rel s₀.table s.table := by
  induction hrun with
  | refl => exact .refl
  | near _ hnear ih => exact ih.trans (Course.aloof_regular (ih.sound hs) hnear.beside hnear.facts)
  | move _ hm hnotify ih =>
    exact ih.trans (Move.ends_regular (ih.sound hs) hm hnotify _ rfl)

/-- Undisturbed runs are chronicles, so a table is standing after one. The induction is on the run,
and its listeners leave rows and handles alone. -/
theorem standing {rules : Rules} (hrun : Undisturbed s₀ s) (hnew : s₀.table.IsNew rules) :
    s.table.Standing := by
  induction hrun with
  | refl => exact .of_isNew hnew
  | near _ hnear ih => exact ih.of_path (.single (.aside hnear.beside))
  | move _ hm hnotify ih => exact ih.ends_move (fun e x => (hnotify e x).beside.drifts) hm _ rfl

end Undisturbed

/-! ## Primary symbols in runs -/

/-- In a table that has just been opened, nothing is designated. The rules have to be steady, and
the store has to work. -/
theorem Table.Regular.of_isNew {rules : Rules} (hnew : t.IsNew rules) (hrules : rules.Steady)
    (hworks : t.store.Works) : t.Regular := by
  refine ⟨hnew.rules_eq ▸ hrules, hworks, fun a id hprimary => ?_⟩
  rw [hnew.facts_eq] at hprimary
  cases hprimary

/-- Asked whether it is primary, the symbol of a handle answers so, and nothing changes. -/
def Situated.AnswersPrimary (s : Situated σ) (h : HandleId) (primary : Bool) : Prop :=
  ((answer h .isPrimary).run s).1 = .ok (.flag primary) ∧
    ((answer h .isPrimary).run s).2.table = s.table

/-- Where the handle is ready, the symbol answers at once whether it is primary, and nothing is
changed by the question. -/
theorem Situated.answersPrimary_of_isReady {s : Situated σ} (hopen : s.table.closed = false)
    (hready : s.table.IsReady h) : s.AnswersPrimary h (s.table.isPrimary h) := by
  obtain ⟨_, s', hrun, rfl, heq⟩ := (answers_isPrimary_of_isReady (σ := σ) hopen hready).exists_run
  rw [AnswersPrimary, hrun]
  exact ⟨rfl, heq⟩

/-- Of the symbols that are listed for an address, the one that is designated there is primary. -/
structure Situated.Ranks (s : Situated σ) (a : Address) (handles : List HandleId) : Prop where
  isPrimary : ∀ h ∈ handles, ∀ id, (s.table.handle h).key = .stored id →
    s.AnswersPrimary h (s.table.facts.primaryAt a = some id)
  /-- Not more than one stored symbol is primary. -/
  unique : ∀ h ∈ handles, ∀ k ∈ handles, ∀ id i, (s.table.handle h).key = .stored id →
    (s.table.handle k).key = .stored i → s.AnswersPrimary h true → s.AnswersPrimary k true → k = h
  /-- The one that is designated comes first, and is found as the primary symbol. -/
  first : ∀ id, s.table.facts.primaryAt a = some id → ∃ h, handles.head? = some h ∧
    (s.table.handle h).key = .stored id ∧ ((primaryAt a).run s).1 = .ok (some h)

/-- In a list of the symbols at an address, the one that is designated answers that it is primary,
and no other one does. -/
theorem Situated.ranks {s : Situated σ} {handles : List HandleId} (hs : s.table.Sound)
    (he : s.table.Exact) (hregular : s.table.Regular) (hopen : s.table.closed = false)
    (hlists : s.table.Lists a handles) : s.Ranks a handles := by
  have hanswers {h : HandleId} {id : SymbolId} (hh : h ∈ handles)
      (hkey : (s.table.handle h).key = .stored id) :
      s.AnswersPrimary h (s.table.facts.primaryAt a = some id) := by
    obtain ⟨hserves, r, hget, rfl⟩ := hlists.serves h hh id hkey
    rw [← isPrimary_eq he hserves hs hregular.designated hget]
    exact answersPrimary_of_isReady hopen hserves.ready
  refine ⟨fun h hh id hkey => hanswers hh hkey, fun h hh k hk id i hkey hkey' htrue htrue' => ?_,
    fun id hprimary => ?_⟩
  · -- both are the one that is designated
    have hdesignated {h : HandleId} {id : SymbolId} (hh : h ∈ handles)
        (hkey : (s.table.handle h).key = .stored id) (htrue : s.AnswersPrimary h true) :
        s.table.facts.primaryAt a = some id := by
      have heq := htrue.1.symm.trans (hanswers hh hkey).1
      simpa using heq
    have hsame := (hdesignated hh hkey htrue).symm.trans (hdesignated hk hkey' htrue')
    obtain rfl := Option.some.inj hsame
    exact he.eq_of_serves (hlists.serves h hh id hkey).1 (hlists.serves k hk id hkey').1
  · have heligible := hregular.designated a id hprimary
    have hget' := heligible.hasSymbol
    obtain ⟨r, -, hget, haddress, -⟩ := heligible
    have hrow := (Table.row?_eq_some_iff hs.backend).1 hget
    obtain ⟨h, hhead, hkey⟩ := hlists.first id hprimary ⟨r, hrow.1, hrow.2, haddress⟩
    have hserves := (hlists.serves h (List.mem_of_head? hhead) id hkey).1
    obtain ⟨found, s', hrun, rfl⟩ :=
      (answers_primaryAt_of_serves hs he hregular.works hprimary hget' hserves).exists_run
    exact ⟨h, hhead, hkey, congrArg Prod.fst hrun⟩

/-- **Primary symbols.** Whatever was done to a table with the usual rules since it was opened
empty: a symbol that is designated at an address is stored there and may be primary, and it is found
as the primary symbol. Of the stored symbols that are listed for an address, at most one answers
that it is primary, and if one is designated, it is that one, and it comes first in the list. The
store works, listeners do not act on the table, rows and designations are changed through moves
alone, derived symbols are not relocated, and there are ids left. -/
theorem Undisturbed.primaries_are_sound {s₀ s : Situated σ} (hnew : s₀.table.IsNew .standard)
    (hworks : s₀.table.store.Works) (hrun : Undisturbed s₀ s) (hlt : s.table.drawn < UInt64.size - 1)
    (a : Address) :
    (∀ id, s.table.facts.primaryAt a = some id → s.table.Eligible a id ∧
      ∃ h s', (primaryAt a).run s = (.ok (some h), s') ∧ s'.table.Serves h id) ∧
    ∃ handles s', (symbolsAt a).run s = (.ok handles, s') ∧ s'.Ranks a handles := by
  have hstanding := hrun.standing hnew
  have hregular₀ : s₀.table.Regular := .of_isNew hnew Rules.steady_standard hworks
  obtain ⟨he, hregular⟩ := (hrun.rel hnew.sound).keeps hnew.sound hlt hnew.exact hregular₀
  have hs := hstanding.sound
  refine ⟨fun id hprimary => ?_, ?_⟩
  · have heligible := hregular.designated a id hprimary
    obtain ⟨_, s', hrun', h, rfl, hserves⟩ :=
      (answers_primaryAt hs he hregular.works hprimary heligible.hasSymbol).exists_run
    exact ⟨heligible, h, s', hrun', hserves⟩
  have hkinds : ∀ r ∈ s.table.rows, ∃ k, r.kind? = some k := by
    intro r hr
    obtain ⟨⟨k, hk, -⟩, -⟩ := hstanding.forest hlt r hr
    exact ⟨k, hk⟩
  have hupkept := follows_symbolsAt (σ := σ) (c := .upkept) a s.table hs
  obtain ⟨handles, s', hrun', hlists, hrel⟩ :=
    ((answers_symbolsAt hs hregular.works hkinds he a).and hupkept).exists_run
  have hpath := Course.path_of_upkept hrel
  have hdrawn : s'.table.drawn < UInt64.size - 1 := by
    rw [Table.drawn, hpath.upkeep.1]
    exact hlt
  have hkept : (Course.regular fun _ => True).rel s.table s'.table := .of_upkept hs hrel
  obtain ⟨he', hregular'⟩ := hkept.keeps hs hdrawn he hregular
  have hopen : s'.table.closed = false := by
    rw [hpath.sameFrame.closed, ((hrun.rel hnew.sound).path.sameFrame).closed, hnew.closed_eq]
  exact ⟨handles, s', hrun', Situated.ranks (hpath.sound hs) he' hregular' hopen hlists⟩

/-- A function takes the designation from a label and is deleted, which leaves it to the label
again. That takes it along to another address. -/
theorem Undisturbed.primaries_are_sound_of_moved :
    let s₀ : Situated Unit := ⟨.empty default .standard, (), 0⟩
    let new (name : String) (k : Kind) : Move :=
      .create ⟨name, k, .ram 16, .global, .userDefined, 0, 0, none⟩
    let go (s : Situated Unit) (m : Move) := ((m.action Listener.idle).run s).2
    let s := [new "x" .label, new "f" .function, .edit 1 .setPrimary, .edit 1 .delete,
      .edit 0 (.relocate (.ram 16) (.ram 32))].foldl go s₀
    s₀.table.IsNew .standard ∧ s₀.table.store.Works ∧ Undisturbed s₀ s ∧
      s.table.drawn < UInt64.size - 1 ∧
      s.table.facts.primaryAt (.ram 32) = some ⟨1, by decide⟩ ∧
      (∀ id, s.table.facts.primaryAt (.ram 32) = some id → s.table.Eligible (.ram 32) id ∧
        ∃ h s', (primaryAt (.ram 32)).run s = (.ok (some h), s') ∧ s'.table.Serves h id) ∧
      ∃ handles s', (symbolsAt (.ram 32)).run s = (.ok handles, s') ∧ s'.Ranks (.ram 32) handles := by
  intro s₀ new go s
  have hnew : s₀.table.IsNew .standard := .memory _ _ _
  have hworks : s₀.table.store.Works := fun _ _ _ => rfl
  have hidle (e : Event) (x : Situated Unit) : x.table.Near (Listener.idle e x).table :=
    ⟨⟨rfl, rfl, rfl, rfl, rfl, rfl⟩, rfl⟩
  have hrun : Undisturbed s₀ s :=
    .move (.move (.move (.move (.move .refl rfl hidle) rfl hidle) rfl hidle) rfl hidle)
      ⟨rfl, by decide⟩ hidle
  have hlt : s.table.drawn < UInt64.size - 1 := by decide
  exact ⟨hnew, hworks, hrun, hlt, by decide, Undisturbed.primaries_are_sound hnew hworks hrun hlt _⟩

end SymbolTable
