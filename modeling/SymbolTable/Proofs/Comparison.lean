import SymbolTable.Proofs.Announcements
import SymbolTable.Proofs.Table.Depth
import SymbolTable.Proofs.Workspace.Turning

/-!
# What comparisons compare

Of a symbol a comparison looks at the kind, the address and the name shown (`Face`), and so it does
of the scopes around it. A comparison keeps up handles and does nothing else, so every handle stays
that of its symbol meanwhile, where it is and under its name (`Exact.symbol_of_upkeep`,
`Exact.face_of_upkeep`), and the walk up both ways can be followed on the rows (`yields_alikeFrom`,
by induction on those of the first way). Symbols are equal if their faces and those of the scopes
around them are the same, one for one (`equality_compares_lineages`). But the walk is cut off where
it has passed as many scopes as it may, before it has seen that both ways end there
(`equality_misses_lineages`).
-/

namespace SymbolTable

open SymbolTable.Action
open Table (Path upkeep)

variable {t t' : Table} {h k : HandleId} {r r' : Row} {rs rs' : List Row}

/-! ## Lineages -/

/-- What is compared of a symbol. -/
@[ext]
structure Face where
  kind : Kind
  address : Address
  name : String
  deriving DecidableEq

namespace Table

/-- The face of the symbol of a handle. -/
def face (t : Table) (h : HandleId) : Face :=
  ⟨(t.handle h).kind, (t.handle h).address, t.shownFor (t.handle h)⟩

/-- The face of the symbol of a row. A row whose tag stands for no kind counts as a label. -/
def faceOf (t : Table) (r : Row) : Face :=
  ⟨r.kind?.getD .label, r.address, t.shown r⟩

/-- The handle is live, and the rows are those of the scopes around its symbol, which lead to the
global one. -/
structure Nests (t : Table) (h : HandleId) (rs : List Row) : Prop where
  live : (t.handle h).deleted = false
  leads : t.Leads (t.handle h).parent rs

/-- The face of a stored symbol can be read off its row: the name that the handle shows is the name
that the row shows. -/
theorem Sound.face_of_row (hs : t.Sound) (hrow : (t.handle h).row = some r) : t.face h = t.faceOf r := by
  have hkind : r.kind? = some (t.handle h).kind := Kind.ofTag?_eq_some_iff.2 ((hs.inOrder h).tag r hrow)
  rw [face, faceOf, hkind, (hs.inOrder h).address r hrow, shownFor_of_row hrow]
  rfl

/-- While handles are kept up, a live one keeps its face. Its row, its kind and its address stay,
and so does the name that it shows, which is told by the rows and the rules. -/
theorem Exact.face_of_upkeep (he : t.Exact) (hs : t.Sound) (hpath : Path upkeep t t')
    (hlive : (t.handle h).deleted = false) : t'.face h = t.face h := by
  obtain ⟨-, hrow, -, hkind, haddress⟩ := he.symbol_of_upkeep hs hpath hlive
  have hshown (s : Handle) : t'.shownFor s = t.shownFor s :=
    shownFor_eq hpath.sameFrame hpath.rows_eq_of_upkeep s
  rw [face, hshown]
  simp only [face, shownFor, hrow, hkind, haddress]

/-- The face of a row does not change while handles are kept up, for neither the row nor those from
which it borrows are touched. -/
theorem faceOf_of_upkeep (hpath : Path upkeep t t') : t'.faceOf = t.faceOf := by
  funext r
  rw [faceOf, faceOf, shown_eq hpath.sameFrame hpath.rows_eq_of_upkeep]

/-- A row is as far from the global scope on one way as on the other. If it came on the other way,
it would come nearer to the global scope than it is. -/
theorem Leads.not_mem_of_length_eq {i j : SymbolId} (h : t.Leads (.of i) (r :: rs))
    (h' : t.Leads (.of j) (r' :: rs')) (hlength : rs.length = rs'.length) : r ∉ rs' := by
  intro hmem
  cases h with
  | step hrow hrest =>
    obtain rfl := id_of_row? hrow
    cases h' with
    | step _ hrest' =>
      obtain ⟨l, hl, hle⟩ := hrest'.climbs.exists_of_mem hmem
      rw [hl.unique (.step hrow hrest.climbs), List.length_cons] at hle
      omega

/-- Two ways that begin with different rows and are equally long have a row in common if what comes
after the first rows does. -/
theorem Leads.exists_common_iff {i j : SymbolId} (h : t.Leads (.of i) (r :: rs)) (h' : t.Leads (.of j) (r' :: rs'))
    (hlength : rs.length = rs'.length) (hne : r ≠ r') :
    (∃ x ∈ r :: rs, x ∈ r' :: rs') ↔ ∃ x ∈ rs, x ∈ rs' := by
  constructor
  · rintro ⟨x, hx, hx'⟩
    rcases List.mem_cons.1 hx with rfl | hx
    · rcases List.mem_cons.1 hx' with rfl | hx'
      · exact absurd rfl hne
      · exact absurd hx' (h.not_mem_of_length_eq h' hlength)
    · rcases List.mem_cons.1 hx' with rfl | hx'
      · exact absurd hx (h'.not_mem_of_length_eq h hlength.symm)
      · exact ⟨x, hx, hx'⟩
  · rintro ⟨x, hx, hx'⟩
    exact ⟨x, .tail _ hx, .tail _ hx'⟩

/-! ## Symbols that can be read -/

/-- What is stored is known and stands for kinds, and calls are answered. -/
structure Legible (t : Table) : Prop extends t.Answering where
  kinds : ∀ r ∈ t.rows, ∃ k, r.kind? = some k

namespace Legible

variable (ht : t.Legible)

include ht

/-- A legible table is still legible when handles have been kept up. -/
theorem of_upkeep (hpath : Path upkeep t t') : t'.Legible where
  toAnswering := ht.toAnswering.of_upkeep hpath
  kinds := hpath.kinds not_false ht.sound ht.kinds

/-- The scopes around a symbol are the same when handles have been kept up. Its row is the same, and
so is the way from the scope of this row. -/
theorem nests_of_upkeep (hpath : Path upkeep t t') (hn : t.Nests h rs) : t'.Nests h rs := by
  obtain ⟨hlive, hrow, -⟩ := ht.exact.symbol_of_upkeep ht.sound hpath hn.live
  refine ⟨hlive, ?_⟩
  rw [Handle.parent, hrow]
  exact hn.leads.congr hpath.rows_eq_of_upkeep

end Legible

end Table

/-! ## Questions to a symbol -/

namespace Action

variable {σ : Type} (ht : t.Legible) (hlive : (t.handle h).deleted = false)

include ht hlive

/-- A live symbol says that it is there. Its refresh is not refused, since the store works. -/
theorem answers_isValid : Answers t (isValid h : Action σ _) fun b t' => Path upkeep t t' ∧ b = true := by
  have hcurrent : Answers t (current h (pure ()) : Action σ Unit) fun _ t' => Path upkeep t t' :=
    answers_current ht.toAnswering hlive fun _ hr => .pure hr.path
  refine Ends.attempt_bind hcurrent ?_
  rintro _ t' ⟨⟨⟩, rfl, hpath⟩
  exact Answers.pure ⟨hpath, rfl⟩

/-- A live symbol answers with the address of its handle, which is that of its row. -/
theorem answers_address :
    Answers t (telling h (·.address) : Action σ _) fun a t' => Path upkeep t t' ∧ a = (t.handle h).address :=
  answers_current ht.toAnswering hlive fun _ hr => Ends.look ⟨_, rfl, hr.path, hr.address_eq ht.sound ht.exact⟩

end Action

/-- The handle, if there is one, is that of the first of the rows, which leads to the global scope
past the others. -/
inductive Table.Starts (t : Table) : List Row → Option HandleId → Prop where
  | global : Starts t [] none
  | scope {h : HandleId} {r : Row} {rs : List Row} (hserves : t.Serves h r.id)
      (hrow : (t.handle h).row = some r) (hnests : t.Nests h rs) : Starts t (r :: rs) (some h)

/-- A symbol answers with a handle of the first of the scopes around it, or with none if it lies in
the global one. The handle may be new, so it is told by what it serves for. -/
theorem Table.Legible.answers_parentOf {σ : Type} (ht : t.Legible) (hn : t.Nests h rs) :
    Answers t (parentOf h : Action σ _) fun k? t' => Path upkeep t t' ∧ t'.Starts rs k? := by
  refine answers_current ht.toAnswering hn.live fun t₁ hr => .look_bind ?_
  have ht₁ := ht.of_upkeep hr.path
  have hleads := (ht.nests_of_upkeep hr.path hn).leads
  split
  · rename_i hparent
    rw [hparent] at hleads
    cases hleads
    exact .pure ⟨hr.path, .global⟩
  · rename_i id hparent
    rw [hparent] at hleads
    cases hleads with
    | @step _ r rs hrow hrest =>
      obtain rfl := Table.id_of_row? hrow
      obtain ⟨k, hk⟩ := ht₁.kinds r (Table.mem_of_row? hrow)
      have hfollows : Ends t₁ (lookup r.id : Action σ _) fun _ t' => Path upkeep t₁ t' :=
        follows_lookup (c := .steps upkeep) r.id t₁ ht₁.sound
      refine ((answers_lookup ht₁.sound ht₁.serving.works ht₁.exact.pooled.pools ⟨r, k, hrow, hk⟩).and hfollows).imp ?_
      rintro _ t₂ ⟨⟨k, rfl, hoffers⟩, hpath⟩
      have hrows : t₂.rows = t₁.rows := hpath.rows_eq_of_upkeep
      have ht₂ := ht₁.of_upkeep hpath
      have hrow₂ := ht₂.exact.row_of_key ht₂.sound hoffers.key ((Table.row?_congr hrows r.id).trans hrow)
      refine ⟨hr.path.trans hpath, .scope hoffers.toServes hrow₂ ⟨hoffers.ready.live, ?_⟩⟩
      rw [Handle.parent_of_row hrow₂]
      exact hrest.congr hrows

/-- A handle of the first scope on a way is still one when handles have been kept up. It serves for
the same scope, and its copy is still the row. -/
theorem Table.Starts.of_upkeep (ht : t.Legible) (hpath : Path upkeep t t') {h? : Option HandleId}
    (hstarts : t.Starts rs h?) : t'.Starts rs h? := by
  cases hstarts with
  | global => exact .global
  | scope hserves hrow hnests =>
    have hrow' := ht.exact.row_of_upkeep ht.sound hpath hrow
    exact .scope (hserves.of_upkeep hpath) hrow' (ht.nests_of_upkeep hpath hnests)

/-- Symbols that different handles serve for, at equally many steps from the global scope, have a
scope around them in common if their parents are in one, or in one of them lies the other. -/
theorem Table.Answering.exists_common_iff (ha : t.Answering) (hserves : t.Serves h r.id)
    (hrow : (t.handle h).row = some r) (hnests : t.Nests h rs) (hserves' : t.Serves k r'.id)
    (hrow' : (t.handle k).row = some r') (hnests' : t.Nests k rs') (hne : h ≠ k) (hlength : rs.length = rs'.length) :
    (∃ x ∈ r :: rs, x ∈ r' :: rs') ↔ ∃ x ∈ rs, x ∈ rs' := by
  have hleads {h : HandleId} {r : Row} {rs : List Row} (hrow : (t.handle h).row = some r) (hnests : t.Nests h rs) :
      t.Leads (.of r.id) (r :: rs) :=
    .step ((ha.exact.mirrors h).row r hrow) (Handle.parent_of_row hrow ▸ hnests.leads)
  refine (hleads hrow hnests).exists_common_iff (hleads hrow' hnests') hlength ?_
  rintro rfl
  exact hne (ha.exact.eq_of_serves hserves' hserves)

/-! ## Comparisons in a workspace -/

namespace Workspace

variable {w w' : Workspace} {n : Nat} {x : Locator}

/-- There is a table at this place, and its handles know their rows. -/
structure Holds (w : Workspace) (n : Nat) : Prop where
  placed : n < w.tables.length
  sound : (w.tableAt n).Sound
  exact : (w.tableAt n).Exact

/-- There is a table at this place, and its symbols can be read. -/
structure Hosts (w : Workspace) (n : Nat) : Prop where
  placed : n < w.tables.length
  legible : (w.tableAt n).Legible

/-- Where the symbols of a table can be read, its handles know their rows. -/
theorem Hosts.holds (hn : w.Hosts n) : w.Holds n :=
  ⟨hn.placed, hn.legible.sound, hn.legible.exact⟩

/-- Where the symbols of a table can be read, they still can be when the workspace was upheld. -/
theorem Hosts.of_upheld (hn : w.Hosts n) (hw : w.Upheld w') : w'.Hosts n :=
  ⟨hw.length_eq.symm ▸ hn.placed, hn.legible.of_upkeep (hw.path n hn.placed)⟩

/-- The handle of a symbol is live. -/
def Live (w : Workspace) (x : Locator) : Prop :=
  ((w.tableAt x.table).handle x.handle).deleted = false

/-- The face of a symbol. -/
def face (w : Workspace) (x : Locator) : Face :=
  (w.tableAt x.table).face x.handle

/-- The faces of a symbol and of the scopes around it, whose rows are these. -/
def lineage (w : Workspace) (x : Locator) (rs : List Row) : List Face :=
  w.face x :: rs.map (w.tableAt x.table).faceOf

/-- A live symbol stays live while the workspace is upheld. -/
theorem Live.of_upheld (hlive : w.Live x) (hx : w.Holds x.table) (hw : w.Upheld w') : w'.Live x :=
  (hx.exact.symbol_of_upkeep hx.sound (hw.path _ hx.placed) hlive).1

/-- A live symbol keeps its face while the workspace is upheld, whichever table was asked
meanwhile. -/
theorem Upheld.face_eq (hw : w.Upheld w') (hx : w.Holds x.table) (hlive : w.Live x) : w'.face x = w.face x :=
  hx.exact.face_of_upkeep hx.sound (hw.path _ hx.placed) hlive

end Workspace

namespace Action

variable {w : Workspace} {x y : Locator}

section
variable (hx : w.Hosts x.table)

include hx

/-- What a symbol answers at its table it answers in the workspace. -/
theorem yields_of {α : Type} {a : HandleId → Action Surroundings α} {P : α → Prop} (ha : Inward (a x.handle))
    (hanswers : Answers (w.tableAt x.table) (a x.handle) fun v t' => Path upkeep (w.tableAt x.table) t' ∧ P v) :
    Yields w (of x a) fun v _ => P v :=
  .within hx.placed ha hanswers

/-- The kind that a symbol tells is that of its face. For this its table is not even asked whether
the symbol is there. -/
theorem yields_kindOf : Yields w (kindOf x) fun k _ => k = (w.face x).kind :=
  yields_of hx (.look _) (Ends.look ⟨_, rfl, .refl, rfl⟩)

variable (hlive : w.Live x)

include hlive

/-- A live symbol, asked in a workspace, says that it is there. -/
theorem yields_isValid : Yields w (of x isValid) fun b _ => b = true :=
  yields_of hx (inward_isValid _) (answers_isValid hx.legible hlive)

/-- A live symbol, asked in a workspace, tells the address of its face. -/
theorem yields_address : Yields w (of x (telling · (·.address))) fun a _ => a = (w.face x).address :=
  yields_of hx (inward_telling _ _) (answers_address hx.legible hlive)

/-- A live symbol, asked in a workspace, tells the name of its face. It is refreshed for this, which
keeps up its table alone. -/
theorem yields_name : Yields w (of x fun h => current h (nameOf h)) fun name _ => name = (w.face x).name := by
  refine yields_of hx ((inward_nameOf _).current _) ?_
  refine (answers_currentName hx.legible.toAnswering hlive).imp ?_
  rintro _ t' ⟨rfl, hrel⟩
  exact ⟨Course.path_of_upkept hrel, rfl⟩

end

/-- Symbols are alike if they have the same face. The kind, the address and the name are compared in
this order, and each is that of the face. The comparison stops where two differ, and then the faces
differ. -/
theorem yields_alike (hx : w.Hosts x.table) (hy : w.Hosts y.table) (hlx : w.Live x) (hly : w.Live y) :
    Yields w (alike x y) fun b _ => b = true ↔ w.face x = w.face y := by
  refine (yields_kindOf hx).bind ?_
  rintro _ w₁ hw₁ rfl
  refine (yields_kindOf (hy.of_upheld hw₁)).bind ?_
  rintro _ w₂ hw₂ rfl
  have hw := hw₁.trans hw₂
  rw [hw₁.face_eq hy.holds hly]
  split
  · rename_i hne
    exact .pure ⟨nofun, fun heq => absurd (congrArg Face.kind heq) hne⟩
  · rename_i hkind
    refine (yields_address (hx.of_upheld hw) (hlx.of_upheld hx.holds hw)).bind ?_
    rintro _ w₃ hw₃ rfl
    rw [hw.face_eq hx.holds hlx]
    replace hw := hw.trans hw₃
    refine (yields_address (hy.of_upheld hw) (hly.of_upheld hy.holds hw)).bind ?_
    rintro _ w₄ hw₄ rfl
    rw [hw.face_eq hy.holds hly]
    replace hw := hw.trans hw₄
    split
    · rename_i hne
      exact .pure ⟨nofun, fun heq => absurd (congrArg Face.address heq) hne⟩
    · rename_i haddress
      refine (yields_name (hx.of_upheld hw) (hlx.of_upheld hx.holds hw)).bind ?_
      rintro _ w₅ hw₅ rfl
      rw [hw.face_eq hx.holds hlx]
      replace hw := hw.trans hw₅
      refine (yields_name (hy.of_upheld hw) (hly.of_upheld hy.holds hw)).bind ?_
      rintro _ w₆ hw₆ rfl
      rw [hw.face_eq hy.holds hly]
      refine .pure (decide_eq_true_iff.trans ⟨fun hname => ?_, congrArg Face.name⟩)
      exact Face.ext (not_not.1 hkind) (not_not.1 haddress) hname

/-- A live symbol, asked in a workspace, answers with a handle of the first of the scopes around it,
at its own table. -/
theorem yields_parentLocator (hx : w.Hosts x.table) (hnests : (w.tableAt x.table).Nests x.handle rs) :
    Yields w (parentLocator x) fun p w' =>
      ∃ h?, p = h?.map (⟨x.table, ·⟩) ∧ (w'.tableAt x.table).Starts rs h? := by
  have hparent : Yields w (of x parentOf) fun h? w' => (w'.tableAt x.table).Starts rs h? :=
    .within hx.placed (inward_parentOf _) (hx.legible.answers_parentOf hnests)
  refine hparent.bind ?_
  intro h? w₁ _ hstarts
  exact .pure ⟨h?, rfl, hstarts⟩

/-- The parents are found and compared, and the handles have only been kept up meanwhile. What
follows from the comparison of the parents is left to `hwalk`, for all handles that may be found for
them. -/
theorem yields_alikeAbove {depth : Nat} {P : Bool → Workspace → Prop} (hx : w.Hosts x.table) (hy : w.Hosts y.table)
    (hnests : (w.tableAt x.table).Nests x.handle rs) (hnests' : (w.tableAt y.table).Nests y.handle rs')
    (hwalk : ∀ w' h? k?, w.Upheld w' → (w'.tableAt x.table).Starts rs h? → (w'.tableAt y.table).Starts rs' k? →
      Yields w' (alikeFrom depth (h?.map (⟨x.table, ·⟩)) (k?.map (⟨y.table, ·⟩))) P) :
    Yields w (do alikeFrom depth (← parentLocator x) (← parentLocator y)) P := by
  refine (yields_parentLocator hx hnests).bind ?_
  rintro _ w₁ hw₁ ⟨h?, rfl, hp⟩
  have hnests₁ := hy.legible.nests_of_upkeep (hw₁.path _ hy.placed) hnests'
  refine (yields_parentLocator (hy.of_upheld hw₁) hnests₁).bind ?_
  rintro _ w₂ hw₂ ⟨k?, rfl, hq⟩
  have hx₁ := hx.of_upheld hw₁
  exact hwalk w₂ h? k? (hw₁.trans hw₂) (hp.of_upkeep hx₁.legible (hw₂.path _ hx₁.placed)) hq

/-- Two chains of parents are equal if they have the same faces and the walk comes to an end: it
gets past the last rows, or to a row that the chains have in common. -/
theorem yields_alikeFrom {m n depth : Nat} {h? k? : Option HandleId} (hm : w.Hosts m) (hn : w.Hosts n)
    (hp : (w.tableAt m).Starts rs h?) (hq : (w.tableAt n).Starts rs' k?) (hle : rs.length ≤ depth) :
    Yields w (alikeFrom depth (h?.map (⟨m, ·⟩)) (k?.map (⟨n, ·⟩))) fun b _ =>
      b = true ↔ rs.map (w.tableAt m).faceOf = rs'.map (w.tableAt n).faceOf ∧
        (rs.length < depth ∨ m = n ∧ ∃ r ∈ rs, r ∈ rs') := by
  induction rs generalizing w depth h? k? rs' with
  | nil =>
    cases hp
    cases depth with
    | zero => exact .pure ⟨nofun, by simp⟩
    | succ depth =>
      cases hq with
      | global => exact .pure (by simp)
      | scope => exact .pure ⟨nofun, by simp⟩
  | cons r rs ih =>
    obtain ⟨depth, rfl⟩ : ∃ d, depth = d + 1 := ⟨depth - 1, by rw [List.length_cons] at hle; omega⟩
    cases hp with
    | @scope h _ _ hserves hrow hnests =>
    cases hq with
    | global => exact .pure ⟨nofun, by simp⟩
    | @scope k r' rs' hserves' hrow' hnests' =>
    show Yields w (alikeFrom (depth + 1) (some ⟨m, h⟩) (some ⟨n, k⟩)) _
    unfold alikeFrom
    split
    · rename_i heq
      obtain ⟨rfl, rfl⟩ := Locator.mk.inj heq
      cases hrow.symm.trans hrow'
      obtain rfl := hnests.leads.unique hnests'.leads
      exact .pure ⟨fun _ => ⟨rfl, .inr ⟨rfl, r, .head _, .head _⟩⟩, fun _ => rfl⟩
    · rename_i hne
      refine (yields_alike (x := ⟨m, h⟩) (y := ⟨n, k⟩) hm hn hnests.live hnests'.live).bind ?_
      intro b w₁ hw₁ hb
      have hface : w.face ⟨m, h⟩ = (w.tableAt m).faceOf r := hm.legible.sound.face_of_row hrow
      have hface' : w.face ⟨n, k⟩ = (w.tableAt n).faceOf r' := hn.legible.sound.face_of_row hrow'
      rw [hface, hface'] at hb
      cases b with
      | false => exact .pure ⟨nofun, fun heq => nomatch hb.2 (List.cons.inj heq.1).1⟩
      | true =>
        have hnests₁ := hm.legible.nests_of_upkeep (hw₁.path m hm.placed) hnests
        have hnests₁' := hn.legible.nests_of_upkeep (hw₁.path n hn.placed) hnests'
        refine yields_alikeAbove (x := ⟨m, h⟩) (y := ⟨n, k⟩) (hm.of_upheld hw₁) (hn.of_upheld hw₁) hnests₁ hnests₁'
          fun w₂ h? k? hw₂ hp hq => ?_
        have hw := hw₁.trans hw₂
        refine (ih (hm.of_upheld hw) (hn.of_upheld hw) hp hq (Nat.le_of_succ_le_succ hle)).imp fun b _ _ hrest => ?_
        rw [hrest, Table.faceOf_of_upkeep (hw.path m hm.placed), Table.faceOf_of_upkeep (hw.path n hn.placed),
          List.map_cons, List.map_cons, List.cons.injEq, and_iff_right (hb.1 rfl), List.length_cons,
          Nat.succ_lt_succ_iff]
        refine and_congr_right fun htails => or_congr_right (and_congr_right fun hmn => ?_)
        subst hmn
        have hlength : rs.length = rs'.length := by simpa using congrArg List.length htails
        have hne : h ≠ k := fun heq => hne (congrArg (Locator.mk m) heq)
        exact (hm.legible.exists_common_iff hserves hrow hnests hserves' hrow' hnests' hne hlength).symm

/-- A comparison of two symbols yields whether their lineages are the same, but for the walk being
cut off. It comes to its end if the first way is shorter than a walk may be, if both handles are
one, or if both ways of one table meet in a row. -/
theorem yields_structurallyEqual (hx : w.Hosts x.table) (hy : w.Hosts y.table)
    (hnests : (w.tableAt x.table).Nests x.handle rs) (hnests' : (w.tableAt y.table).Nests y.handle rs')
    (hle : rs.length ≤ (w.tableAt x.table).settings.maxDepth) :
    Yields w (structurallyEqual x y) fun b _ =>
      b = true ↔ w.lineage x rs = w.lineage y rs' ∧
        (x = y ∨ rs.length < (w.tableAt x.table).settings.maxDepth ∨ x.table = y.table ∧ ∃ r ∈ rs, r ∈ rs') := by
  refine (yields_isValid hx hnests.live).bind ?_
  rintro _ w₁ hw₁ rfl
  have hlive₁ : w₁.Live y := Workspace.Live.of_upheld hnests'.live hy.holds hw₁
  refine (yields_isValid (hy.of_upheld hw₁) hlive₁).bind ?_
  rintro _ w₂ hw₂ rfl
  have hw := hw₁.trans hw₂
  show Yields w₂ (if x = y then _ else _) _
  split
  · rename_i heq
    subst heq
    obtain rfl := hnests.leads.unique hnests'.leads
    exact .pure ⟨fun _ => ⟨rfl, .inl rfl⟩, fun _ => rfl⟩
  · rename_i hne
    have hx₂ := hx.of_upheld hw
    have hy₂ := hy.of_upheld hw
    have hlx₂ : w₂.Live x := Workspace.Live.of_upheld hnests.live hx.holds hw
    have hly₂ : w₂.Live y := Workspace.Live.of_upheld hnests'.live hy.holds hw
    refine (yields_alike hx₂ hy₂ hlx₂ hly₂).bind ?_
    intro b w₃ hw₃ hb
    rw [hw.face_eq hx.holds hnests.live, hw.face_eq hy.holds hnests'.live] at hb
    replace hw := hw.trans hw₃
    cases b with
    | false => exact .pure ⟨nofun, fun heq => nomatch hb.2 (List.cons.inj heq.1).1⟩
    | true =>
      have hdepth : Yields w₃ (of x fun _ => look (·.settings.maxDepth)) fun depth _ =>
          depth = (w₃.tableAt x.table).settings.maxDepth :=
        yields_of (hx.of_upheld hw) (.look _) (Ends.look ⟨_, rfl, .refl, rfl⟩)
      refine hdepth.bind ?_
      rintro _ w₄ hw₄ rfl
      rw [(hw.path _ hx.placed).sameFrame.settings]
      replace hw := hw.trans hw₄
      have hnests₄ := hx.legible.nests_of_upkeep (hw.path _ hx.placed) hnests
      have hnests₄' := hy.legible.nests_of_upkeep (hw.path _ hy.placed) hnests'
      refine yields_alikeAbove (hx.of_upheld hw) (hy.of_upheld hw) hnests₄ hnests₄' fun w₅ h? k? hw₅ hp hq => ?_
      replace hw := hw.trans hw₅
      refine (yields_alikeFrom (hx.of_upheld hw) (hy.of_upheld hw) hp hq hle).imp fun b _ _ hrest => ?_
      rw [hrest, Table.faceOf_of_upkeep (hw.path _ hx.placed), Table.faceOf_of_upkeep (hw.path _ hy.placed),
        Workspace.lineage, Workspace.lineage, List.cons.injEq, and_iff_right (hb.1 rfl), or_iff_right hne]

end Action

/-! ## Equality -/

/-- The table came about from an empty one by moves that took no derived symbol to the address of
another one. Its store works, and there are ids left. -/
structure Table.Attained (t : Table) : Prop where
  exists_run : ∃ (rules : Rules) (s₀ s : Workspace), s₀.table.IsNew rules ∧
    Runs (fun _ t m => m.DisplacesNone t) false s₀ s ∧ s.table = t
  drawn_lt : t.drawn < UInt64.size - 1
  works : t.store.Works

/-- Tables that came about so are legible: no handle has another row than the one that is stored,
and every row is of a kind, as all of them went through the table. -/
theorem Table.Attained.legible (ht : t.Attained) : t.Legible := by
  obtain ⟨⟨rules, s₀, s, hnew, hrun, rfl⟩, hlt, hworks⟩ := ht
  have hs := hrun.sound_of_displacesNone hnew
  have he := hrun.exact_of_displacesNone hnew hlt
  exact ⟨⟨hs, he, hworks, hrun.opened hnew⟩, (hrun.kinded hnew fun _ _ _ hm => hm.goesThrough).kinds⟩

/-- A table that has just been opened over a store that works is legible, whatever rows are there,
if each of them is of a kind and has an id that was drawn: there are no handles yet that could say
something else. -/
theorem Table.legible_ofStore {settings : Settings} {rules : Rules} {store : Store} {observed : Bool}
    (hb : store.backend.Sound) (hworks : store.Works) (hkinds : ∀ r ∈ store.backend.rows, ∃ k, r.kind? = some k)
    (hdrawn : ∀ r ∈ store.backend.rows, r.id.val.toNat ≤ (ofStore settings rules store observed).drawn) :
    (ofStore settings rules store observed).Legible :=
  ⟨⟨sound_ofStore hb, exact_ofStore hdrawn, hworks, rfl⟩, hkinds⟩

namespace Workspace

variable {w : Workspace} {x y : Locator}

/-- There is the symbol in the workspace, and the rows are those of the scopes around it, which lead
to the global one. They are no more than a walk may pass. Of its table no more is asked than that it
is legible, so it may also have been opened over a store with rows in it, and rows may have been put
behind its back where no handle has another copy. -/
structure Shows (w : Workspace) (x : Locator) (rs : List Row) : Prop where
  placed : x.table < w.tables.length
  legible : (w.tableAt x.table).Legible
  valid : ((of x isValid).run w).1 = .ok true
  leads : (w.tableAt x.table).Leads ((w.tableAt x.table).handle x.handle).parent rs
  length_le : rs.length ≤ (w.tableAt x.table).settings.maxDepth

/-- A table that shows a symbol hosts it: its handles know their rows and its calls are answered. -/
theorem Shows.hosts (hx : w.Shows x rs) : w.Hosts x.table :=
  ⟨hx.placed, hx.legible⟩

/-- The rows around a symbol are a way to the global scope, which is what a walk up the parents
follows. -/
theorem Shows.nests (hx : w.Shows x rs) : (w.tableAt x.table).Nests x.handle rs :=
  ⟨ends_isValid hx.legible.sound x.handle _ (table_turnTo hx.placed) hx.valid, hx.leads⟩

/-- **Symbols are equal if their lineages are.** Two symbols that are there, of one table or of two
with the same bound on walks, whose tables are legible, are compared with the same answer both ways:
they are equal exactly if they and the scopes around them are of the same kinds, lie at the same
addresses and show the same names. There is one exception. Where there are as many scopes around
them as a walk may pass, the comparison gives up before it finds both ways at their ends. So then
only a symbol and itself are equal, or symbols with the same lineage that have a scope around them
in common. -/
theorem equality_compares_lineages (hx : w.Shows x rs) (hy : w.Shows y rs')
    (hdepth : (w.tableAt x.table).settings.maxDepth = (w.tableAt y.table).settings.maxDepth) :
    ∃ b, ((structurallyEqual x y).run w).1 = .ok b ∧ ((structurallyEqual y x).run w).1 = .ok b ∧
      (b = true ↔ w.lineage x rs = w.lineage y rs' ∧
        (x = y ∨ rs.length < (w.tableAt x.table).settings.maxDepth ∨ x.table = y.table ∧ ∃ r ∈ rs, r ∈ rs')) := by
  obtain ⟨b, _, hrun, -, hb⟩ := yields_structurallyEqual hx.hosts hy.hosts hx.nests hy.nests hx.length_le
  obtain ⟨c, _, hrun', -, hc⟩ := yields_structurallyEqual hy.hosts hx.hosts hy.nests hx.nests hy.length_le
  have heq : b = true ↔ c = true := by
    rw [hb, hc, ← hdepth, eq_comm, eq_comm (a := x), eq_comm (a := x.table)]
    refine and_congr_right fun hlineage => or_congr_right (or_congr ?_ (and_congr_right fun _ => ?_))
    · have hlength := congrArg List.length hlineage
      rw [lineage, lineage, List.length_cons, List.length_cons, List.length_map, List.length_map] at hlength
      rw [Nat.succ.inj hlength]
    · exact ⟨fun ⟨r, hr, hr'⟩ => ⟨r, hr', hr⟩, fun ⟨r, hr, hr'⟩ => ⟨r, hr', hr⟩⟩
  obtain rfl := Bool.eq_iff_iff.2 heq
  exact ⟨b, congrArg Prod.fst hrun, congrArg Prod.fst hrun', hb⟩

/-- The table in which these symbols were created, one after the other. -/
def created (settings : Settings) (drafts : List Draft) : Table :=
  (drafts.foldl (fun s d => (((Move.create d).action Listener.recorder).run s).2)
    (ofTable (.empty settings .standard))).table

/-- A table in which symbols were created one after the other came about by allowed moves, so it is
attained if ids remain. -/
theorem attained_created (settings : Settings) (drafts : List Draft)
    (hlt : (created settings drafts).drawn < UInt64.size - 1) : (created settings drafts).Attained := by
  let s₀ := ofTable (.empty settings .standard)
  have hnew : s₀.table.IsNew .standard := .memory _ _ _
  have hcreates (d : Draft) (t : Table) : (Move.create d).DisplacesNone t := .of_ne_relocate trivial nofun
  have hfold : ∀ (ds : List Draft) (s : Workspace), Chronicle (fun _ t m => m.DisplacesNone t) false s₀ s →
      Chronicle (fun _ t m => m.DisplacesNone t) false s₀
        (ds.foldl (fun s d => (((Move.create d).action Listener.recorder).run s).2) s) := by
    intro ds
    induction ds with
    | nil => exact fun _ h => h
    | cons d ds ih => exact fun s h => ih _ (.move h (hcreates d _) .recorder)
  have hchronicle := hfold drafts s₀ .refl
  exact ⟨⟨.standard, _, _, hnew, hchronicle.runs, rfl⟩, hlt, hchronicle.works hnew.sound fun _ _ _ => rfl⟩

/-- Two tables, the first of which is at hand. -/
def pair (t t' : Table) : Workspace :=
  ⟨t, ⟨[], [t'], [], []⟩, 0⟩

/-- The first of two tables is at hand. -/
theorem tableAt_pair_zero (t t' : Table) : (pair t t').tableAt 0 = t := rfl

/-- The second of two tables is at the other place. -/
theorem tableAt_pair_one (t t' : Table) : (pair t t').tableAt 1 = t' := rfl

/-- A symbol that was created in an outermost scope. That there are ids left says that it came about
by allowed moves, and its scope is the only row on the way. -/
theorem Shows.of_created {settings : Settings} {drafts : List Draft} {n : Nat}
    (hplaced : n < w.tables.length) (htable : w.tableAt n = created settings drafts)
    (hlt : (created settings drafts).drawn < UInt64.size - 1) (hvalid : ((of ⟨n, h⟩ isValid).run w).1 = .ok true)
    (hparent : ((created settings drafts).handle h).parent = .of r.id)
    (hrow : (created settings drafts).row? r.id = some r) (htop : r.parent = .global)
    (hdepth : 0 < (created settings drafts).settings.maxDepth) : w.Shows ⟨n, h⟩ [r] := by
  refine ⟨hplaced, ?_, hvalid, ?_, ?_⟩
  · rw [htable]
    exact (attained_created settings drafts hlt).legible
  · rw [htable, hparent]
    refine .step hrow ?_
    rw [htop]
    exact .global
  · rw [htable]
    exact hdepth

/-- Labels with one name at one address, in scopes with one name. The scopes are different ones, of
two tables, and the symbols have different ids, but the lineages are the same. -/
theorem equality_compares_lineages_of_namesakes :
    let scope : Draft := ⟨"n", .namespaceScope, .nowhere, .global, .userDefined, 0, 0, none⟩
    let label (parent : SymbolId) : Draft := ⟨"x", .label, .ram 16, .of parent, .userDefined, 0, 0, none⟩
    let other : Draft := ⟨"y", .label, .ram 32, .global, .userDefined, 0, 0, none⟩
    let i : SymbolId := ⟨1, by decide⟩
    let j : SymbolId := ⟨2, by decide⟩
    let t := created default [scope, label i]
    let t' := created default [other, scope, label j]
    let w := pair t t'
    let x : Locator := ⟨0, 1⟩
    let y : Locator := ⟨1, 2⟩
    let rs := [Row.fresh i .namespaceScope .nowhere "n" .global .userDefined]
    let rs' := [Row.fresh j .namespaceScope .nowhere "n" .global .userDefined]
    t.Attained ∧ t'.Attained ∧ w.Shows x rs ∧ w.Shows y rs' ∧
      (w.tableAt x.table).settings.maxDepth = (w.tableAt y.table).settings.maxDepth ∧
      ((structurallyEqual x y).run w).1 = .ok true ∧
      ∃ b, ((structurallyEqual x y).run w).1 = .ok b ∧ ((structurallyEqual y x).run w).1 = .ok b ∧
        (b = true ↔ w.lineage x rs = w.lineage y rs' ∧
          (x = y ∨ rs.length < (w.tableAt x.table).settings.maxDepth ∨ x.table = y.table ∧ ∃ r ∈ rs, r ∈ rs')) := by
  intro scope label other i j t t' w x y rs rs'
  have hx : w.Shows x rs := .of_created (by decide) (tableAt_pair_zero ..) (by decide +kernel) (by decide +kernel)
    (by decide +kernel) (by decide +kernel) rfl (by decide +kernel)
  have hy : w.Shows y rs' := .of_created (by decide) (tableAt_pair_one ..) (by decide +kernel) (by decide +kernel)
    (by decide +kernel) (by decide +kernel) rfl (by decide +kernel)
  have hdepth : (w.tableAt x.table).settings.maxDepth = (w.tableAt y.table).settings.maxDepth := by decide +kernel
  exact ⟨attained_created _ _ (by decide +kernel), attained_created _ _ (by decide +kernel), hx, hy, hdepth,
    by decide +kernel, equality_compares_lineages hx hy hdepth⟩

/-- Where a walk may pass one row, labels with one lineage are not equal if each lies in a scope of
its own table: the comparison does not look beyond these scopes. -/
theorem equality_misses_lineages :
    let settings : Settings := { (default : Settings) with maxDepth := 1 }
    let scope : Draft := ⟨"n", .namespaceScope, .nowhere, .global, .userDefined, 0, 0, none⟩
    let i : SymbolId := ⟨1, by decide⟩
    let label : Draft := ⟨"x", .label, .ram 16, .of i, .userDefined, 0, 0, none⟩
    let t := created settings [scope, label]
    let t' := created settings [scope, label]
    let w := pair t t'
    let x : Locator := ⟨0, 1⟩
    let y : Locator := ⟨1, 1⟩
    let rs := [Row.fresh i .namespaceScope .nowhere "n" .global .userDefined]
    t.Attained ∧ t'.Attained ∧ w.Shows x rs ∧ w.Shows y rs ∧
      (w.tableAt x.table).settings.maxDepth = (w.tableAt y.table).settings.maxDepth ∧
      w.lineage x rs = w.lineage y rs ∧ ((structurallyEqual x y).run w).1 = .ok false := by
  intro settings scope i label t t' w x y rs
  have hx : w.Shows x rs := .of_created (by decide) (tableAt_pair_zero ..) (by decide +kernel) (by decide +kernel)
    (by decide +kernel) (by decide +kernel) rfl (by decide +kernel)
  have hy : w.Shows y rs := .of_created (by decide) (tableAt_pair_one ..) (by decide +kernel) (by decide +kernel)
    (by decide +kernel) (by decide +kernel) rfl (by decide +kernel)
  exact ⟨attained_created _ _ (by decide +kernel), attained_created _ _ (by decide +kernel), hx, hy, by decide +kernel,
    by decide +kernel, by decide +kernel⟩

end Workspace

end SymbolTable
