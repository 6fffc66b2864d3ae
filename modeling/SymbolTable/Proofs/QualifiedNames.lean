import SymbolTable.Proofs.FullNames
import SymbolTable.Proofs.ProperRows

/-!
# What a qualified name says of the path

A qualified name is the path of a symbol with a separator between the names. A chosen name may
contain the separator or a part of it, so two paths can be written alike
(`Runs.qualified_names_coincide`). They cannot if they are `Name.Discernible`: no name on either
contains the whole separator, and the separator is not put together from the end of a name and the
beginning of another one. Where two paths that are written alike first differ, the name on one of
them goes on by what stands for a separator on the other (`Name.eq_nil_of_trail_eq`). No name on a
path is empty (`Runs.names_on_paths_are_not_empty`), so the paths of symbols in one table are told
apart by their qualified names if they are discernible (`Runs.qualified_names_identify_paths`).
-/

namespace SymbolTable

open SymbolTable.Action
open Table (Path)

variable {σ : Type} {t : Table} {r : Row} {s₀ s : Situated σ} {h : HandleId}

/-! ## Paths that are written alike -/

namespace Name

variable {p q : List String} {a b text : String}

/-- A name on the first path ends with a colon before the path goes on, and a name further down on
the second path begins with one. -/
def Meets (p q : List String) : Prop :=
  (∃ name ∈ p.dropLast, name.toList.getLast? = some ':') ∧ ∃ name ∈ q.tail, name.toList.head? = some ':'

instance : Decidable (Meets p q) :=
  inferInstanceAs (Decidable (_ ∧ _))

/-- Nothing on two paths can be taken for a separator. -/
structure Discernible (p q : List String) : Prop where
  within : ∀ name ∈ p ++ q, ¬ separator.toList <:+: name.toList
  across : ¬ Meets p q
  back : ¬ Meets q p

/-- Where two paths meet further down, they meet. To put names in front of both adds to what could
be taken for a separator, and takes nothing away. -/
theorem Meets.of_tail (h : Meets p q) : Meets (a :: p) (b :: q) := by
  obtain ⟨⟨x, hx, hlast⟩, y, hy, hhead⟩ := h
  refine ⟨⟨x, ?_, hlast⟩, y, List.mem_of_mem_tail hy, hhead⟩
  cases p with
  | nil => cases hx
  | cons => exact List.mem_cons_of_mem _ hx

/-- It makes no difference which of the two paths comes first. -/
theorem Discernible.symm (h : Discernible p q) : Discernible q p :=
  ⟨fun name hname => h.within name (List.mem_append.2 (List.mem_append.1 hname).symm), h.back, h.across⟩

/-- Discernible paths are so without their outermost names. The induction along two paths takes this
at each step. -/
theorem Discernible.tail (h : Discernible (a :: p) (b :: q)) : Discernible p q := by
  refine ⟨fun name hname => h.within name ?_, fun hmeets => h.across hmeets.of_tail, fun hmeets =>
    h.back hmeets.of_tail⟩
  rcases List.mem_append.1 hname with hname | hname
  · exact List.mem_append_left _ (.tail _ hname)
  · exact List.mem_append_right _ (.tail _ hname)

/-- What comes in a qualified name after the outermost name: all others, each after a separator. -/
def trail (p : List String) : List Char :=
  p.flatMap fun name => separator.toList ++ name.toList

/-- The trail of a path is the separator, the next name and the rest of the trail. -/
theorem trail_cons : trail (a :: p) = ':' :: ':' :: (a.toList ++ trail p) := rfl

/-- A qualified name is the outermost name and the trail. From here on it is compared character by
character. The induction is on the path, with the first name left open. -/
theorem toList_qualified : (qualified (a :: p)).toList = a.toList ++ trail p := by
  unfold qualified
  induction p generalizing a with
  | nil => rw [String.intercalate_singleton, trail, List.flatMap_nil, List.append_nil]
  | cons b p ih =>
    rw [String.intercalate_cons_cons, String.toList_append, String.toList_append, ih, trail_cons, List.append_assoc]
    rfl

/-- Where a name goes on by `w` beyond the one in its place on the other path, and both paths go on
alike, `w` is part of what stands for a separator on the other path. -/
theorem eq_nil_of_trail_eq {w : List Char} (hd : Discernible (a :: p) (b :: q)) (hp : ∀ name ∈ p, name ≠ "")
    (hb : b.toList = a.toList ++ w) (htrail : trail p = w ++ trail q) : w = [] := by
  cases p with
  | nil => exact (List.append_eq_nil_iff.1 htrail.symm).1
  | cons c p =>
    rw [trail_cons] at htrail
    match w with
    | [] => rfl
    | x :: y :: w =>
      -- the whole separator belongs to the name that goes on
      simp only [List.cons_append, List.cons.injEq] at htrail
      obtain ⟨rfl, rfl, -⟩ := htrail
      refine absurd ⟨a.toList, w, ?_⟩ (hd.within b (List.mem_append_right _ (.head _)))
      rw [hb, List.append_assoc]
      rfl
    | [x] =>
      -- half of it does, and the other half begins the next separator on that path
      simp only [List.cons_append, List.nil_append, List.cons.injEq] at htrail
      obtain ⟨rfl, htrail⟩ := htrail
      cases q with
      | nil => cases htrail
      | cons d q =>
        have hhead : c.toList ++ trail p = ':' :: (d.toList ++ trail q) := (List.cons.inj htrail).2
        have hc : c.toList.head? = some ':' := by
          rw [← List.head?_append_of_ne_nil _ (mt String.toList_eq_nil_iff.1 (hp c (.head _))), hhead, List.head?_cons]
        refine absurd ⟨⟨b, .head _, ?_⟩, c, .head _, hc⟩ hd.back
        rw [hb, List.getLast?_append]
        rfl

/-- Discernible paths without empty names are not written alike. The first names are compared: if
one went on beyond the other, it would have to make up the separator, which `eq_nil_of_trail_eq`
excludes. The induction is on the first path. -/
theorem eq_of_qualified_eq (hd : Discernible p q) (hp : ∀ name ∈ p, name ≠ "") (hq : ∀ name ∈ q, name ≠ "")
    (h : qualified p = qualified q) : p = q := by
  have hne {c : String} {l : List String} (hl : ∀ name ∈ c :: l, name ≠ "") : qualified (c :: l) ≠ "" := by
    rw [ne_eq, ← String.toList_eq_nil_iff, toList_qualified, List.append_eq_nil_iff, String.toList_eq_nil_iff]
    exact fun hnil => hl c (.head _) hnil.1
  induction p generalizing q with
  | nil =>
    cases q with
    | nil => rfl
    | cons b q => exact absurd h.symm (hne hq)
  | cons a p ih =>
    cases q with
    | nil => exact absurd h (hne hp)
    | cons b q =>
      have hp' : ∀ name ∈ p, name ≠ "" := fun name hname => hp name (.tail _ hname)
      have hq' : ∀ name ∈ q, name ≠ "" := fun name hname => hq name (.tail _ hname)
      have htext : a.toList ++ trail p = b.toList ++ trail q := by
        rw [← toList_qualified, ← toList_qualified, h]
      -- neither of the first names goes on beyond the other
      obtain ⟨hab, htrail⟩ : a.toList = b.toList ∧ trail p = trail q := by
        rcases List.append_eq_append_iff.1 htext with ⟨w, hw, htrail⟩ | ⟨w, hw, htrail⟩
        · obtain rfl := eq_nil_of_trail_eq hd hp' hw htrail
          exact ⟨(hw.trans (List.append_nil _)).symm, htrail⟩
        · obtain rfl := eq_nil_of_trail_eq hd.symm hq' hw htrail
          exact ⟨hw.trans (List.append_nil _), htrail.symm⟩
      rw [String.toList_injective hab]
      cases p with
      | nil =>
        cases q with
        | nil => rfl
        | cons d q => cases htrail
      | cons c p =>
        cases q with
        | nil => cases htrail
        | cons d q =>
          simp only [trail_cons, List.cons.injEq, true_and] at htrail
          rw [ih hd.tail hp' hq' ?_]
          rw [← String.toList_inj, toList_qualified, toList_qualified, htrail]

end Name

/-! ## No name on a path is empty -/

namespace Rules

/-- The name that a symbol has by its kind is not empty. -/
theorem nameByKind_ne_empty (stem? : Option String) (k : Kind) (a : Address) (ordinal : Int32) :
    nameByKind stem? k a ordinal ≠ "" := by
  rw [ne_eq, ← String.toList_eq_nil_iff]
  cases k <;> simp [nameByKind, Name.derived]

/-- No symbol that goes without a name of its own, and borrows none, is shown under an empty one. -/
def ShowsNames (rules : Rules) : Prop :=
  ∀ k a ordinal, rules.derivedName k a ordinal ≠ ""

/-- The rules that follow from a table of capabilities show every symbol under a name, whatever the
table says. -/
theorem showsNames_ofCapabilities (capabilities : Kind → Capabilities) : (ofCapabilities capabilities).ShowsNames :=
  fun k a ordinal => nameByKind_ne_empty _ k a ordinal

end Rules

/-- No row that has a name of its own goes without it, and symbols without one have a name by their
kind. -/
structure Table.Nameable (t : Table) : Prop where
  derived : t.rules.ShowsNames
  rows : ∀ r ∈ t.rows, r.provenance ≠ .default → r.name ≠ ""
  copies : ∀ h r, (t.handle h).row = some r → r.provenance ≠ .default → r.name ≠ ""

/-- Where rows are proper, they are nameable if the rules show a name where there is none: a row
with another provenance than the default one has a name that passed the check, and an empty name
does not. -/
theorem Table.Everywhere.nameable (he : t.Everywhere t.Proper) (hshows : t.rules.ShowsNames) : t.Nameable := by
  refine ⟨hshows, fun r hr hnamed => ?_, fun h r hrow hnamed => ?_⟩
  · obtain ⟨k, -, hproper⟩ := he.rows r hr
    exact Name.ne_empty_of_check (hproper.named hnamed)
  · exact Name.ne_empty_of_check ((he.copies h r hrow).named hnamed)

/-- A walk passes rows that are stored. Each of them was found under the id of a scope on the way.
The induction is on the walk. -/
theorem Table.Climbs.mem_rows {scope : Scope} {rs : List Row} (hclimbs : t.Climbs scope rs) : ∀ r ∈ rs, r ∈ t.rows := by
  induction hclimbs with
  | global | lost => exact nofun
  | step hget _ ih =>
    rintro r (_ | ⟨_, hr⟩)
    · exact Table.mem_of_row? hget
    · exact ih r hr

namespace Action

variable (ht : t.Sound) (hn : t.Nameable)

include ht hn

/-- The name that a row shows is not empty, through however many lenders it is looked for. If none
of them has one, it is called by its kind. -/
theorem tells_shownName_ne_empty (depth : Nat) (visited : List SymbolId)
    (hr : r.provenance ≠ .default → r.name ≠ "") :
    Tells t (shownName depth visited r : Action σ _) fun name => name ≠ "" := by
  have hderived (r : Row) : Tells t (look (·.derivedName r) : Action σ _) fun name => name ≠ "" :=
    .look (hn.derived _ _ _)
  induction depth generalizing visited r with
  | zero => exact hderived r
  | succ depth ih =>
    unfold shownName
    split
    · rename_i hnamed
      exact .pure (hr hnamed)
    · refine .look_bind ?_
      split
      · exact hderived r
      · split
        · exact hderived r
        · refine (tells_getRow ht _).bind fun row? hrow => ?_
          split
          · exact hderived r
          · exact ih _ (hn.rows _ (Table.mem_of_row? hrow.symm))

/-- No name on the path of a symbol is empty. The names of the scopes around it are those that their
rows show, and so is its own. The induction is on the rows that the walk has passed. -/
theorem tells_pathOf_ne_empty (h : HandleId) :
    Tells t (pathOf h : Action σ _) fun path => ∀ name ∈ path, name ≠ "" := by
  have hshown {r : Row} (hr : r.provenance ≠ .default → r.name ≠ "") :
      Tells t (displayName r : Action σ _) fun name => name ≠ "" :=
    .look_bind (tells_shownName_ne_empty ht hn _ _ hr)
  have hrows (rs : List Row) (hrs : ∀ r ∈ rs, r ∈ t.rows) :
      Tells t (rs.mapM displayName : Action σ _) fun names => ∀ name ∈ names, name ≠ "" := by
    induction rs with
    | nil => exact .pure nofun
    | cons r rs ih =>
      rw [List.mapM_cons]
      refine (hshown (hn.rows r (hrs r (.head _)))).bind fun name hname => ?_
      refine (ih fun r hr => hrs r (.tail _ hr)).bind fun names hnames => .pure ?_
      exact List.forall_mem_cons.2 ⟨hname, hnames⟩
  have hscopes (scope : Scope) : Tells t (scopePath scope : Action σ _) fun names => ∀ name ∈ names, name ≠ "" := by
    refine Tells.bind (P := t.Climbs scope) (.look_bind (tells_climb ht _ _ _ _)) fun rs hclimbs => ?_
    exact hrows rs.reverse fun r hr => hclimbs.mem_rows r (List.mem_reverse.1 hr)
  have hname : Tells t (nameOf h : Action σ _) fun name => name ≠ "" := by
    refine .look_bind ?_
    split
    · rename_i r hrow
      exact hshown (hn.copies h r hrow)
    · exact .look (hn.derived _ _ _)
  refine .look_bind ((hscopes _).bind fun names hnames => hname.bind fun name hname => .pure ?_)
  exact List.forall_mem_append.2 ⟨hnames, List.forall_mem_singleton.2 hname⟩

end Action

/-- No name on the path of a symbol is empty, whatever was done through the table since it was
opened empty with rules that show a name where there is none. -/
theorem Runs.names_on_paths_are_not_empty {rules : Rules} {path : List String} (hnew : s₀.table.IsNew rules)
    (hshows : rules.ShowsNames) (hrun : Runs (fun _ _ m => m.goesThrough) false s₀ s)
    (hpath : ((current h (pathOf h)).run s).1 = .ok path) : ∀ name ∈ path, name ≠ "" := by
  have he := hrun.everywhere_proper hnew
  have hrunPath := hrun.steps hnew.sound
  have hs := hrunPath.sound hnew.sound
  have hrules : s.table.rules = rules := hrunPath.sameFrame.rules.trans hnew.rules_eq
  have hends : Ends s.table (current h (pathOf h) : Action σ _) fun answer _ =>
      ∀ path, answer = .ok path → ∀ name ∈ path, name ≠ "" := by
    refine .current hs h (fun _ => nofun) (fun _ _ _ => nofun) fun t₁ hr => ?_
    have hrules₁ : t₁.rules = rules := hr.path.sameFrame.rules.trans hrules
    have hn := (hr.everywhere_proper hs he).nameable (hrules₁ ▸ hshows)
    exact (tells_pathOf_ne_empty (hr.path.sound hs) hn h).imp fun _ _ htells => htells.2
  exact hends s rfl path hpath

/-! ## Paths by qualified names -/

/-- A symbol that answers with its qualified name answers with its path, which is written so. Both
are asked of the same handle, and to write the path out changes nothing. -/
theorem Action.exists_path_of_qualifiedName {text : String} (hname : ((qualifiedName h false).run s).1 = .ok text) :
    ∃ path, ((current h (pathOf h)).run s).1 = .ok path ∧ Name.qualified path = text := by
  have hmap : ((qualifiedName h false).run s).1 = Name.qualified <$> ((current h (pathOf h)).run s).1 := by
    rw [qualifiedName, if_neg Bool.false_ne_true, map_eq_pure_bind, run_bind]
    rcases (current h (pathOf h)).run s with ⟨_ | _, _⟩ <;> rfl
  rw [hmap] at hname
  cases hpath : ((current h (pathOf h)).run s).1 with
  | error fault =>
    rw [hpath] at hname
    cases hname
  | ok path =>
    rw [hpath] at hname
    exact ⟨path, rfl, Except.ok.inj hname⟩

/-- **Paths are told apart by qualified names.** Whatever was done through a table since it was
opened empty, by moves and by their listeners, and whichever calls of the store failed: two symbols
that answer with the same qualified name answer with their paths, and these are the same if nothing
on them can be taken for a separator. So they are unless a name on one of them contains the
separator, or a name on one of them ends with a colon before the path goes on and a name further
down on the other begins with one. Of the rules no more is asked than that they show no symbol under
an empty name, which those that follow from capabilities do not
(`Rules.showsNames_ofCapabilities`). -/
theorem Runs.qualified_names_identify_paths {rules : Rules} {x y : HandleId} {text : String}
    (hnew : s₀.table.IsNew rules) (hshows : rules.ShowsNames)
    (hrun : Runs (fun _ _ m => m.goesThrough) false s₀ s)
    (hx : ((qualifiedName x false).run s).1 = .ok text) (hy : ((qualifiedName y false).run s).1 = .ok text) :
    ∃ p q, ((current x (pathOf x)).run s).1 = .ok p ∧ ((current y (pathOf y)).run s).1 = .ok q ∧
      (Name.Discernible p q → p = q) := by
  obtain ⟨p, hp, hptext⟩ := exists_path_of_qualifiedName hx
  obtain ⟨q, hq, hqtext⟩ := exists_path_of_qualifiedName hy
  refine ⟨p, q, hp, hq, fun hdiscernible => ?_⟩
  exact Name.eq_of_qualified_eq hdiscernible (hrun.names_on_paths_are_not_empty hnew hshows hp)
    (hrun.names_on_paths_are_not_empty hnew hshows hq) (hptext.trans hqtext.symm)

/-- Two labels of one name lie at two addresses of the same scope. Their paths are the same, and so
are their qualified names. A name of this kind says where a symbol is nested, and not at which
address it lies. -/
theorem Runs.qualified_names_identify_paths_of_namesakes :
    let s₀ : Situated Unit := ⟨.empty default .standard, (), 0⟩
    let a : SymbolId := ⟨1, by decide⟩
    let label (place : UInt64) : Move := .create ⟨"b", .label, .ram place, .of a, .userDefined, 0, 0, none⟩
    let go (s : Situated Unit) (m : Move) := ((m.action Listener.idle).run s).2
    let s := [.create ⟨"a", .namespaceScope, .nowhere, .global, .userDefined, 0, 0, none⟩, label 16,
      label 32].foldl go s₀
    s₀.table.IsNew .standard ∧ Rules.standard.ShowsNames ∧ Runs (fun _ _ m => m.goesThrough) false s₀ s ∧
      ((qualifiedName 1 false).run s).1 = .ok "a::b" ∧ ((qualifiedName 2 false).run s).1 = .ok "a::b" ∧
      ∃ p q, ((current 1 (pathOf 1)).run s).1 = .ok p ∧ ((current 2 (pathOf 2)).run s).1 = .ok q ∧
        Name.Discernible p q ∧ p = q := by
  intro s₀ a label go s
  have hnew : s₀.table.IsNew .standard := .memory _ _ _
  have hrun : Runs (fun _ _ m => m.goesThrough) false s₀ s :=
    .move (.move (.move .refl trivial .idle) trivial .idle) trivial .idle
  have hx : ((qualifiedName 1 false).run s).1 = .ok "a::b" := by decide +kernel
  have hy : ((qualifiedName 2 false).run s).1 = .ok "a::b" := by decide +kernel
  have hshows : Rules.standard.ShowsNames := Rules.showsNames_ofCapabilities _
  obtain ⟨p, q, hp, hq, heq⟩ := Runs.qualified_names_identify_paths hnew hshows hrun hx hy
  have hp' : ((current 1 (pathOf 1)).run s).1 = .ok ["a", "b"] := by decide +kernel
  have hq' : ((current 2 (pathOf 2)).run s).1 = .ok ["a", "b"] := by decide +kernel
  cases hp.symm.trans hp'
  cases hq.symm.trans hq'
  have hdiscernible : Name.Discernible ["a", "b"] ["a", "b"] := ⟨by decide, by decide, by decide⟩
  exact ⟨hnew, hshows, hrun, hx, hy, _, _, hp, hq, hdiscernible, heq hdiscernible⟩

/-- A label with the separator in its name is called as one in a scope, and a label whose name
begins with a colon as one in a scope whose name ends with a colon. -/
theorem Runs.qualified_names_coincide :
    let s₀ : Situated Unit := ⟨.empty default .standard, (), 0⟩
    let a : SymbolId := ⟨1, by decide⟩
    let colon : SymbolId := ⟨2, by decide⟩
    let scope (name : String) : Move := .create ⟨name, .namespaceScope, .nowhere, .global, .userDefined, 0, 0, none⟩
    let label (name : String) (parent : Scope) : Move :=
      .create ⟨name, .label, .ram 16, parent, .userDefined, 0, 0, none⟩
    let go (s : Situated Unit) (m : Move) := ((m.action Listener.idle).run s).2
    let s := [scope "a", scope "a:", label "b" (.of a), label "a::b" .global, label ":b" (.of a),
      label "b" (.of colon)].foldl go s₀
    s₀.table.IsNew .standard ∧ Runs (fun _ _ m => m.goesThrough) false s₀ s ∧
      (∀ h ∈ [2, 3, 4, 5], ((isValid h).run s).1 = .ok true) ∧
      ((qualifiedName 2 false).run s).1 = .ok "a::b" ∧ ((qualifiedName 3 false).run s).1 = .ok "a::b" ∧
      ((current 2 (pathOf 2)).run s).1 = .ok ["a", "b"] ∧ ((current 3 (pathOf 3)).run s).1 = .ok ["a::b"] ∧
      ((qualifiedName 4 false).run s).1 = .ok "a:::b" ∧ ((qualifiedName 5 false).run s).1 = .ok "a:::b" ∧
      ((current 4 (pathOf 4)).run s).1 = .ok ["a", ":b"] ∧ ((current 5 (pathOf 5)).run s).1 = .ok ["a:", "b"] := by
  intro s₀ a colon scope label go s
  have hnew : s₀.table.IsNew .standard := .memory _ _ _
  have hrun : Runs (fun _ _ m => m.goesThrough) false s₀ s :=
    .move (.move (.move (.move (.move (.move .refl trivial .idle) trivial .idle) trivial .idle) trivial .idle)
      trivial .idle) trivial .idle
  exact ⟨hnew, hrun, by decide +kernel, by decide +kernel, by decide +kernel, by decide +kernel, by decide +kernel,
    by decide +kernel, by decide +kernel, by decide +kernel, by decide +kernel⟩

end SymbolTable
