import SymbolTable.Proofs.Comparison
import SymbolTable.Proofs.Identity
import SymbolTable.Proofs.MovedNames

/-!
# Equal symbols and their keys

Symbols are told apart by their keys, but a comparison looks at their faces and at the scopes around
them. If two symbols with different keys are found equal, the walk up from them comes to two
different ones with the same face that lie in one scope. Two such symbols cannot both have names of
their own, as long as names are unique: at least one of them shows a name that is derived or
borrowed (`Profile.Twins`). So symbols that are equal have one key, unless twins are among them or
around them (`Runs.equal_symbols_share_a_key`), and such twins can be created
(`Runs.equal_symbols_differ_in_keys`). Nothing is assumed of the store: what a comparison answers is
right even where other comparisons fail.
-/

namespace SymbolTable

open SymbolTable.Action
open Table (Path upkeep)

variable {t t' : Table} {h k : HandleId} {r : Row}

/-! ## Symbols that are mistaken for each other -/

/-- What is known of a symbol of a table. -/
structure Profile where
  key : Key
  face : Face
  scope : Scope
  provenance : Provenance

/-- Two symbols in one scope have the same face, but not both have names of their own. -/
structure Profile.Twins (x y : Profile) : Prop where
  key_ne : x.key ≠ y.key
  face : x.face = y.face
  scope : x.scope = y.scope
  unnamed : x.provenance = .default ∨ y.provenance = .default

namespace Table

/-- The profile of the symbol of a handle. -/
def profile (t : Table) (h : HandleId) : Profile :=
  ⟨(t.handle h).key, t.face h, (t.handle h).parent, (t.handle h).provenance⟩

/-- The profile of the symbol of a row. -/
def profileOf (t : Table) (r : Row) : Profile :=
  ⟨.stored r.id, t.faceOf r, r.parent, r.provenance⟩

/-- The symbols are twins, or they have the same face and lie in scopes that are mistakable. -/
inductive Mistakable (t : Table) : Profile → Profile → Prop where
  | twins {x y : Profile} (h : x.Twins y) : Mistakable t x y
  | scopes {x y : Profile} {r r' : Row} (hface : x.face = y.face) (hr : r ∈ t.rows) (hr' : r' ∈ t.rows)
      (hx : x.scope = .of r.id) (hy : y.scope = .of r'.id) (h : Mistakable t (t.profileOf r) (t.profileOf r')) :
      Mistakable t x y

/-- The profile of a stored symbol can be read off its row, as its face can. -/
theorem Sound.profile_of_row (hs : t.Sound) (hrow : (t.handle h).row = some r) : t.profile h = t.profileOf r := by
  rw [profile, profileOf, hs.face_of_row hrow, (hs.inOrder h).key r hrow, Handle.parent, Handle.provenance, hrow]
  rfl

/-- The profile of a row does not change while handles are kept up. -/
theorem profileOf_of_upkeep (hpath : Path upkeep t t') : t'.profileOf = t.profileOf := by
  funext r
  rw [profileOf, profileOf, faceOf_of_upkeep hpath]

/-- What is mistakable after handles were kept up was so before. It is told by the rows and by what
they show, and both stay. The induction is on how they are mistakable. -/
theorem Mistakable.of_upkeep (hpath : Path upkeep t t') {x y : Profile} (h : t'.Mistakable x y) : t.Mistakable x y := by
  have hrows : t'.rows = t.rows := hpath.rows_eq_of_upkeep
  induction h with
  | twins h => exact .twins h
  | scopes hface hr hr' hx hy _ ih =>
    rw [hrows] at hr hr'
    rw [profileOf_of_upkeep hpath] at ih
    exact .scopes hface hr hr' hx hy ih

/-! ## Tables whose symbols can be told apart -/

/-- Every row lies in the global scope or in one that is there. -/
def Linked (t : Table) : Prop :=
  ∀ r ∈ t.rows, ∀ id ∈ r.parent.symbol?, (t.row? id).isSome

instance (t : Table) : Decidable t.Linked :=
  inferInstanceAs (Decidable (∀ r ∈ t.rows, ∀ id ∈ r.parent.symbol?, (t.row? id).isSome))

/-- Handles know their rows, no two rows are namesakes, and no scope of a row is missing. -/
structure Discerning (t : Table) : Prop where
  sound : t.Sound
  exact : t.Exact
  namesUnique : t.NamesUnique
  linked : t.Linked

/-- The handle, if there is one, is that of the symbol that is the scope. -/
inductive Represents (t : Table) : Scope → Option HandleId → Prop where
  | global : Represents t .global none
  | scope {k : HandleId} {r : Row} (hrow : (t.handle k).row = some r) : Represents t (.of r.id) (some k)

namespace Represents

variable {scope scope' : Scope}

/-- A handle is that of one scope only. If there is none, it is the global scope. Otherwise the row
of the handle has the id of the scope. -/
theorem unique {h? : Option HandleId} (h : t.Represents scope h?) (h' : t.Represents scope' h?) : scope = scope' := by
  cases h with
  | global =>
    cases h'
    rfl
  | scope hrow =>
    cases h' with
    | scope hrow' =>
      cases hrow.symm.trans hrow'
      rfl

/-- A handle that represents a scope has the row of the symbol that is the scope. The global scope
is represented by no handle. -/
theorem exists_row (h : t.Represents scope (some k)) : ∃ r, scope = .of r.id ∧ (t.handle k).row = some r := by
  cases h with
  | scope hrow => exact ⟨_, rfl, hrow⟩

/-- A handle that represents a scope is live, since it has a row. -/
theorem live (h : t.Represents scope (some k)) (hs : t.Sound) : (t.handle k).deleted = false := by
  obtain ⟨r, -, hrow⟩ := h.exists_row
  exact (hs.inOrder k).live r hrow

end Represents

namespace Discerning

variable (ht : t.Discerning)

include ht

/-- Symbols can still be told apart when handles have been kept up. No row changes, and no handle
gets another row than it had. -/
theorem of_upkeep (hpath : Path upkeep t t') : t'.Discerning := by
  have hrows : t'.rows = t.rows := hpath.rows_eq_of_upkeep
  refine ⟨hpath.sound ht.sound, hpath.exact not_false not_false ht.sound False.elim ht.exact, ?_, ?_⟩
  · rw [NamesUnique, hrows]
    exact ht.namesUnique
  · intro r hr id hid
    rw [row?_congr hrows]
    rw [hrows] at hr
    exact ht.linked r hr id hid

/-- A live symbol keeps its profile while handles are kept up. Its row, its key and its face are the
same. -/
theorem profile_of_upkeep (hpath : Path upkeep t t') (hlive : (t.handle h).deleted = false) :
    t'.profile h = t.profile h := by
  obtain ⟨-, hrow, hkey, -⟩ := ht.exact.symbol_of_upkeep ht.sound hpath hlive
  rw [profile, profile, ht.exact.face_of_upkeep ht.sound hpath hlive, hkey, Handle.parent, Handle.provenance, hrow]
  rfl

/-- A handle that represents a scope goes on to do so while handles are kept up. The copy of the row
is all that is asked of it. -/
theorem represents_of_upkeep (hpath : Path upkeep t t') {scope : Scope} {h? : Option HandleId}
    (hrepresents : t.Represents scope h?) : t'.Represents scope h? := by
  cases hrepresents with
  | global => exact .global
  | scope hrow => exact .scope (ht.exact.row_of_upkeep ht.sound hpath hrow)

/-- The row of a handle is one of those that are stored. So uniqueness of names, which is about
rows, speaks of handles. -/
theorem mem_rows (hrow : (t.handle h).row = some r) : r ∈ t.rows :=
  mem_of_row? ((ht.exact.mirrors h).row r hrow)

/-- Symbols with the same face are mistakable if the scopes in which they lie turn out to be. The
handles of the scopes are found in the course of the comparison, and the table is the same as before
but for that. So what was found out of them holds of the scopes from the beginning. -/
theorem mistakable_of_scopes {i j : HandleId} (hpath : Path upkeep t t') (hface : t.face h = t.face k)
    (hi : t'.Represents (t.handle h).parent (some i)) (hj : t'.Represents (t.handle k).parent (some j))
    (hscopes : t'.Mistakable (t'.profile i) (t'.profile j)) : t.Mistakable (t.profile h) (t.profile k) := by
  have ht' := ht.of_upkeep hpath
  have hrows : t'.rows = t.rows := hpath.rows_eq_of_upkeep
  obtain ⟨r, hscope, hrow⟩ := hi.exists_row
  obtain ⟨r', hscope', hrow'⟩ := hj.exists_row
  have hr := ht'.mem_rows hrow
  have hr' := ht'.mem_rows hrow'
  rw [hrows] at hr hr'
  have habove := hscopes.of_upkeep hpath
  rw [ht'.sound.profile_of_row hrow, ht'.sound.profile_of_row hrow', profileOf_of_upkeep hpath] at habove
  exact .scopes hface hr hr' hscope hscope' habove

/-- Symbols with names of their own are namesakes if they have the same face and lie in one scope.
Their names are those of their rows, as long as names are shown at all, and the other parts of a
face are kept in the row as well. -/
theorem namesakes {r' : Row} (hdepth : t.settings.maxDepth ≠ 0) (hrow : (t.handle h).row = some r)
    (hrow' : (t.handle k).row = some r') (hnamed : r.provenance ≠ .default) (hnamed' : r'.provenance ≠ .default)
    (hface : t.face h = t.face k) (hscope : (t.handle h).parent = (t.handle k).parent) : Namesakes r r' where
  left := hnamed
  right := hnamed'
  address := by
    rw [← (ht.sound.inOrder h).address r hrow, ← (ht.sound.inOrder k).address r' hrow']
    exact congrArg Face.address hface
  parent := by
    rw [← Handle.parent_of_row hrow, ← Handle.parent_of_row hrow']
    exact hscope
  tag := by
    rw [(ht.sound.inOrder h).tag r hrow, (ht.sound.inOrder k).tag r' hrow']
    exact congrArg (fun f : Face => f.kind.tag) hface
  name := by
    have hname : t.shownFor (t.handle h) = t.shownFor (t.handle k) := congrArg Face.name hface
    rwa [shownFor_of_row hrow, shownFor_of_row hrow', shown_of_named hdepth hnamed,
      shown_of_named hdepth hnamed'] at hname

/-- Different symbols with the same face in one scope are twins. If both had names of their own,
they would be namesakes, which unique names exclude, unless they are one row. A row has one live
handle. -/
theorem twins (hdepth : t.settings.maxDepth ≠ 0) (hlive : (t.handle h).deleted = false)
    (hlive' : (t.handle k).deleted = false) (hne : h ≠ k) (hface : t.face h = t.face k)
    (hscope : (t.handle h).parent = (t.handle k).parent) : (t.profile h).Twins (t.profile k) where
  key_ne hkey := hne (ht.exact.pooled.eq_of_key hlive' hlive hkey)
  face := hface
  scope := hscope
  unnamed := by
    by_contra hnamed
    obtain ⟨hh, hk⟩ := not_or.1 hnamed
    obtain ⟨r, hrow, hr⟩ := Handle.exists_row_of_named hh
    obtain ⟨r', hrow', hr'⟩ := Handle.exists_row_of_named hk
    have hsame := ht.namesakes hdepth hrow hrow' hr hr' hface hscope
    obtain rfl := ht.namesUnique r (ht.mem_rows hrow) r' (ht.mem_rows hrow') hsame
    exact hne (ht.exact.eq_of_row ht.sound hrow' hrow rfl)

end Discerning

end Table

/-! ## What symbols answer -/

namespace Action

variable {σ : Type} (ht : t.Discerning)

include ht

/-- If a symbol tells its address, it is the one of its handle. Nothing is said of a refusal. The
refresh before it leaves the address as it is, since the table is exact. -/
theorem ends_address (h : HandleId) :
    Ends t (telling h (·.address) : Action σ _) fun answer _ => ∀ a, answer = .ok a → a = (t.handle h).address := by
  refine .current ht.sound h (fun _ => nofun) (fun _ _ _ => nofun) fun t' hr => .look ?_
  rintro _ ⟨⟩
  exact hr.address_eq ht.sound ht.exact

/-- If a symbol tells its name, it is the one under which it is shown. The refresh before it finds
the row that the handle has, since the table is exact. -/
theorem ends_name (h : HandleId) :
    Ends t (current h (nameOf h) : Action σ _) fun answer _ =>
      ∀ name, answer = .ok name → name = t.shownFor (t.handle h) := by
  refine .current ht.sound h (fun _ => nofun) (fun _ _ _ => nofun) fun t' hr => ?_
  refine (tells_nameOf (hr.path.sound ht.sound).backend h).imp ?_
  rintro _ _ ⟨-, hname⟩ name hanswer
  rw [hname name hanswer]
  exact hr.shownFor_eq ht.exact

/-- The parent is the scope in which the symbol lies. A handle is found for the id of the parent, or
there is none since the parent is the global scope. That the parent is missing is excluded where all
rows are linked. -/
theorem ends_parentOf (h : HandleId) :
    Ends t (parentOf h : Action σ _) fun answer t' =>
      ∀ k?, answer = .ok k? → t'.Represents (t.handle h).parent k? := by
  refine .current ht.sound h (fun _ => nofun) (fun _ _ _ => nofun) fun t₁ hr => .look_bind ?_
  have ht₁ := ht.of_upkeep hr.path
  have hscope : (t₁.handle h).parent = (t.handle h).parent := by
    rw [Handle.parent, Handle.parent, hr.row_eq_of_exact ht.exact]
  rw [hscope]
  split
  · rename_i hglobal
    rw [hglobal]
    refine .pure ?_
    rintro _ ⟨⟩
    exact .global
  · rename_i id hid
    rw [hid] at hscope ⊢
    have hthere : (t₁.row? id).isSome := by
      obtain ⟨r, hrow, hparent⟩ := Handle.exists_row_of_parent hscope
      refine ht₁.linked r (ht₁.mem_rows hrow) id ?_
      rw [hparent]
      rfl
    have hfollows : Ends t₁ (lookup id : Action σ _) fun _ t' => Path upkeep t₁ t' :=
      follows_lookup (c := .steps upkeep) id t₁ ht₁.sound
    refine ((ends_lookup ht₁.sound ht₁.exact id).and hfollows).imp ?_
    rintro answer t₂ ⟨hfinds, hpath⟩ k? hanswer
    have hfound := hfinds k? hanswer
    cases k? with
    | none =>
      have hnone : t₁.row? id = none := by
        rw [← Table.row?_congr hpath.rows_eq_of_upkeep]
        exact hfound
      rw [hnone] at hthere
      cases hthere
    | some k =>
      obtain ⟨x, hx, rfl⟩ := ((hpath.sound ht₁.sound).inOrder k).exists_row hfound.2 hfound.1
      exact .scope hx

end Action

/-! ## What comparisons reveal -/

namespace Workspace

variable {w w' : Workspace} {n : Nat}

/-- There is a table at this place, and its symbols can be told apart. -/
structure Knows (w : Workspace) (n : Nat) : Prop where
  placed : n < w.tables.length
  discerning : (w.tableAt n).Discerning

/-- Where symbols can be told apart, handles know their rows. -/
theorem Knows.holds (hn : w.Knows n) : w.Holds n :=
  ⟨hn.placed, hn.discerning.sound, hn.discerning.exact⟩

/-- Symbols can still be told apart when the workspace was upheld. -/
theorem Knows.of_upheld (hn : w.Knows n) (hw : w.Upheld w') : w'.Knows n :=
  ⟨hw.length_eq.symm ▸ hn.placed, hn.discerning.of_upkeep (hw.path n hn.placed)⟩

end Workspace

namespace Action

variable {w : Workspace} {n depth : Nat} {x y : Locator}

section
variable (hx : w.Knows x.table)

include hx

/-- What the answer of a symbol says at its table, it reveals in the workspace, if the action is
inward and keeps up handles at most. -/
theorem reveals_of {α : Type} {a : HandleId → Action Surroundings α} {P : α → Table → Prop}
    (ha : Inward (a x.handle)) (hfollows : Follows (.steps upkeep) (a x.handle))
    (hends : Ends (w.tableAt x.table) (a x.handle) fun answer t => ∀ v, answer = .ok v → P v t) :
    Reveals w (of x a) fun v w' => P v (w'.tableAt x.table) :=
  .within hx.placed ha ((hfollows _ hx.discerning.sound).and hends)

/-- That a symbol says whether it is there reveals nothing that is used, but handles are only kept
up by it. -/
theorem reveals_isValid : Reveals w (of x isValid) fun _ _ => True :=
  reveals_of (P := fun _ _ => True) hx (inward_isValid _) (follows_isValid _) fun _ _ _ _ => trivial

/-- The kind that a symbol tells is that of its face. -/
theorem reveals_kindOf : Reveals w (kindOf x) fun kind _ => kind = (w.face x).kind := by
  refine reveals_of (P := fun kind _ => kind = (w.face x).kind) hx (.look _) (.look _) (.look ?_)
  rintro _ ⟨⟩
  rfl

/-- The address that a symbol tells is that of its face. -/
theorem reveals_address : Reveals w (of x (telling · (·.address))) fun a _ => a = (w.face x).address :=
  reveals_of (P := fun a _ => a = (w.face x).address) hx (inward_telling _ _) (follows_telling _ _)
    (ends_address hx.discerning x.handle)

/-- The name that a symbol tells is that of its face. -/
theorem reveals_name : Reveals w (of x fun h => current h (nameOf h)) fun name _ => name = (w.face x).name :=
  reveals_of (a := fun h => current h (nameOf h)) (P := fun name _ => name = (w.face x).name) hx
    ((inward_nameOf _).current _) (follows_name _) (ends_name hx.discerning x.handle)

/-- The parent that a symbol tells is the scope in which it lies, or there is none if this is the
global one. -/
theorem reveals_parentLocator :
    Reveals w (parentLocator x) fun p w' => ∃ h?, p = h?.map (⟨x.table, ·⟩) ∧
      (w'.tableAt x.table).Represents ((w.tableAt x.table).handle x.handle).parent h? := by
  refine (reveals_of hx (inward_parentOf _) (follows_parentOf _) (ends_parentOf hx.discerning x.handle)).bind ?_
  intro h? w' _ hrepresents
  exact .pure ⟨h?, rfl, hrepresents⟩

end

/-- Symbols are only found alike if they have the same face. The kind, the address and the name are
compared in this order, and each answer is the one of the face. The comparison stops where two of
them differ, which reveals nothing. -/
theorem reveals_alike (hx : w.Knows x.table) (hy : w.Knows y.table) (hlx : w.Live x) (hly : w.Live y) :
    Reveals w (alike x y) fun b _ => b = true → w.face x = w.face y := by
  refine (reveals_kindOf hx).bind ?_
  rintro _ w₁ hw₁ rfl
  refine (reveals_kindOf (hy.of_upheld hw₁)).bind ?_
  rintro _ w₂ hw₂ rfl
  rw [hw₁.face_eq hy.holds hly]
  have hw := hw₁.trans hw₂
  split
  · exact .pure nofun
  · rename_i hkind
    refine (reveals_address (hx.of_upheld hw)).bind ?_
    rintro _ w₃ hw₃ rfl
    rw [hw.face_eq hx.holds hlx]
    replace hw := hw.trans hw₃
    refine (reveals_address (hy.of_upheld hw)).bind ?_
    rintro _ w₄ hw₄ rfl
    rw [hw.face_eq hy.holds hly]
    replace hw := hw.trans hw₄
    split
    · exact .pure nofun
    · rename_i haddress
      refine (reveals_name (hx.of_upheld hw)).bind ?_
      rintro _ w₅ hw₅ rfl
      rw [hw.face_eq hx.holds hlx]
      replace hw := hw.trans hw₅
      refine (reveals_name (hy.of_upheld hw)).bind ?_
      rintro _ w₆ hw₆ rfl
      rw [hw.face_eq hy.holds hly]
      refine .pure fun hname => ?_
      exact Face.ext (not_not.1 hkind) (not_not.1 haddress) (of_decide_eq_true hname)

/-- The parents of two symbols of a table are found and then compared. Both are found one after the
other, and the first is still what it was when the second has been found. It is left to `hwalk` what
the walk from there reveals. -/
theorem reveals_parents {P : Bool → Workspace → Prop} (hn : w.Knows n) (hlive' : w.Live ⟨n, k⟩)
    (hwalk : ∀ w' h? k?, w.Upheld w' → (w'.tableAt n).Represents ((w.tableAt n).handle h).parent h? →
      (w'.tableAt n).Represents ((w.tableAt n).handle k).parent k? →
      Reveals w' (alikeFrom depth (h?.map (⟨n, ·⟩)) (k?.map (⟨n, ·⟩))) P) :
    Reveals w (do alikeFrom depth (← parentLocator ⟨n, h⟩) (← parentLocator ⟨n, k⟩)) P := by
  refine (reveals_parentLocator (x := ⟨n, h⟩) hn).bind ?_
  rintro _ w₁ hw₁ ⟨h?, rfl, hp⟩
  have hn₁ := hn.of_upheld hw₁
  refine (reveals_parentLocator (x := ⟨n, k⟩) hn₁).bind ?_
  rintro _ w₂ hw₂ ⟨k?, rfl, hq⟩
  refine hwalk w₂ h? k? (hw₁.trans hw₂) (hn₁.discerning.represents_of_upkeep (hw₂.path n hn₁.placed) hp) ?_
  obtain ⟨-, hrow, -⟩ :=
    hn.discerning.exact.symbol_of_upkeep hn.discerning.sound (hw₁.path n hn.placed) hlive'
  have hscope : ((w₁.tableAt n).handle k).parent = ((w.tableAt n).handle k).parent := by
    rw [Handle.parent, hrow]
    rfl
  exact hscope ▸ hq

/-- Different symbols with the same face whose parents are found equal are mistakable. The walk goes
up both ways in step, and it stops where the two parents are one: so the symbols that it came to
last are different ones in one scope. -/
theorem reveals_alikeAbove (hn : w.Knows n) (hdepth : depth ≤ (w.tableAt n).settings.maxDepth)
    (hlive : w.Live ⟨n, h⟩) (hlive' : w.Live ⟨n, k⟩) (hne : h ≠ k) (hface : w.face ⟨n, h⟩ = w.face ⟨n, k⟩) :
    Reveals w (do alikeFrom depth (← parentLocator ⟨n, h⟩) (← parentLocator ⟨n, k⟩)) fun b _ =>
      b = true → (w.tableAt n).Mistakable ((w.tableAt n).profile h) ((w.tableAt n).profile k) := by
  induction depth generalizing w h k with
  | zero => exact reveals_parents hn hlive' fun _ _ _ _ _ _ => .pure nofun
  | succ depth ih =>
    have htwins (hscope : ((w.tableAt n).handle h).parent = ((w.tableAt n).handle k).parent) :
        (w.tableAt n).Mistakable ((w.tableAt n).profile h) ((w.tableAt n).profile k) :=
      .twins (hn.discerning.twins (by omega) hlive hlive' hne hface hscope)
    refine reveals_parents hn hlive' fun w₁ h? k? hw₁ hp hq => ?_
    have hn₁ := hn.of_upheld hw₁
    cases h? with
    | none =>
      cases k? with
      | none => exact .pure fun _ => htwins (hp.unique hq)
      | some j => exact .pure nofun
    | some i =>
    cases k? with
    | none => exact .pure nofun
    | some j =>
      have hi : w₁.Live ⟨n, i⟩ := hp.live hn₁.discerning.sound
      have hj : w₁.Live ⟨n, j⟩ := hq.live hn₁.discerning.sound
      show Reveals w₁ (alikeFrom (depth + 1) (some ⟨n, i⟩) (some ⟨n, j⟩)) _
      unfold alikeFrom
      split
      · rename_i heq
        obtain ⟨-, rfl⟩ := Locator.mk.inj heq
        exact .pure fun _ => htwins (hp.unique hq)
      · rename_i hne₁
        refine (reveals_alike (x := ⟨n, i⟩) (y := ⟨n, j⟩) hn₁ hn₁ hi hj).bind ?_
        intro b w₂ hw₂ hb
        cases b with
        | false => exact .pure nofun
        | true =>
          have hface₂ : w₂.face ⟨n, i⟩ = w₂.face ⟨n, j⟩ := by
            rw [hw₂.face_eq hn₁.holds hi, hw₂.face_eq hn₁.holds hj]
            exact hb rfl
          have hpath := (hw₁.trans hw₂).path n hn.placed
          have hpath₂ := hw₂.path n hn₁.placed
          have hdepth₂ : depth ≤ (w₂.tableAt n).settings.maxDepth := by
            rw [hpath.sameFrame.settings]
            omega
          have hwalk := ih (hn₁.of_upheld hw₂) hdepth₂ (hi.of_upheld hn₁.holds hw₂) (hj.of_upheld hn₁.holds hw₂)
            (fun heq => hne₁ (by rw [heq])) hface₂
          refine hwalk.imp fun b _ _ hmistakable hb => ?_
          exact hn.discerning.mistakable_of_scopes hpath hface (hn₁.discerning.represents_of_upkeep hpath₂ hp)
            (hn₁.discerning.represents_of_upkeep hpath₂ hq) (hmistakable hb)

/-- Symbols of one table that are found equal are one, or they are mistakable. The faces are
compared first and then the parents, up to where both ways have come to one scope or to the end. -/
theorem reveals_structurallyEqual (hn : w.Knows n) (hlive : w.Live ⟨n, h⟩) (hlive' : w.Live ⟨n, k⟩) :
    Reveals w (structurallyEqual ⟨n, h⟩ ⟨n, k⟩) fun b _ => b = true →
      h = k ∨ (w.tableAt n).Mistakable ((w.tableAt n).profile h) ((w.tableAt n).profile k) := by
  refine (reveals_isValid (x := ⟨n, h⟩) hn).bind fun b w₁ hw₁ _ => ?_
  cases b with
  | false => exact .pure nofun
  | true =>
  refine (reveals_isValid (x := ⟨n, k⟩) (hn.of_upheld hw₁)).bind fun b w₂ hw₂ _ => ?_
  cases b with
  | false => exact .pure nofun
  | true =>
  have hw := hw₁.trans hw₂
  show Reveals w₂ (if (⟨n, h⟩ : Locator) = ⟨n, k⟩ then _ else _) _
  split
  · rename_i heq
    exact .pure fun _ => .inl (congrArg Locator.handle heq)
  · rename_i hne
    have hn₂ := hn.of_upheld hw
    refine (reveals_alike (x := ⟨n, h⟩) (y := ⟨n, k⟩) hn₂ hn₂ (hlive.of_upheld hn.holds hw)
      (hlive'.of_upheld hn.holds hw)).bind fun b w₃ hw₃ hface => ?_
    rw [hw.face_eq hn.holds hlive, hw.face_eq hn.holds hlive'] at hface
    replace hw := hw.trans hw₃
    cases b with
    | false => exact .pure nofun
    | true =>
      have hn₃ := hn.of_upheld hw
      have hdepth : Reveals w₃ (of ⟨n, h⟩ fun _ => look (·.settings.maxDepth)) fun depth _ =>
          depth = (w₃.tableAt n).settings.maxDepth := by
        refine reveals_of (x := ⟨n, h⟩) (P := fun depth _ => depth = (w₃.tableAt n).settings.maxDepth) hn₃ (.look _)
          (.look _) (.look ?_)
        rintro _ ⟨⟩
        rfl
      refine hdepth.bind ?_
      rintro _ w₄ hw₄ rfl
      have hsettings := (hw₄.path n hn₃.placed).sameFrame.settings
      have hle := Nat.le_of_eq (congrArg Settings.maxDepth hsettings.symm)
      replace hw := hw.trans hw₄
      have hface₄ : w₄.face ⟨n, h⟩ = w₄.face ⟨n, k⟩ := by
        rw [hw.face_eq hn.holds hlive, hw.face_eq hn.holds hlive']
        exact hface rfl
      have hwalk := reveals_alikeAbove (hn.of_upheld hw) hle (hlive.of_upheld hn.holds hw)
        (hlive'.of_upheld hn.holds hw) (fun heq => hne (congrArg _ heq)) hface₄
      refine hwalk.imp fun b _ _ hmistakable hb => .inr ?_
      have hpath := hw.path n hn.placed
      have habove := (hmistakable hb).of_upkeep hpath
      rwa [hn.discerning.profile_of_upkeep hpath hlive, hn.discerning.profile_of_upkeep hpath hlive'] at habove

end Action

/-! ## Equal symbols -/

/-- **Equal symbols have one key.** Two symbols of a table that are there and are found equal have
the same key, or else the walk up from them comes to twins: two different symbols with the same face
in one scope, at least one of which has no name of its own. This is so whatever was done through the
table since it was opened empty, by moves and by their listeners, and whichever calls of the store
failed, before the comparison or in it. No derived symbol was moved to the address of another one,
there are ids left, names are unique, and no row has lost its scope. -/
theorem Runs.equal_symbols_share_a_key {rules : Rules} {s₀ s : Workspace} (hnew : s₀.table.IsNew rules)
    (hrun : Runs (fun _ t m => m.DisplacesNone t) false s₀ s) (hlt : s.table.drawn < UInt64.size - 1)
    (hunique : s.table.NamesUnique) (hlinked : s.table.Linked)
    (hvalid : ((isValid h).run s).1 = .ok true) (hvalid' : ((isValid k).run s).1 = .ok true)
    (hequal : ((structurallyEqual (s.locate h) (s.locate k)).run s).1 = .ok true) :
    (s.table.handle h).key = (s.table.handle k).key ∨
      s.table.Mistakable (s.table.profile h) (s.table.profile k) := by
  have hs := hrun.sound_of_displacesNone hnew
  have hknows : s.Knows s.here := by
    refine ⟨s.here_lt, ?_⟩
    rw [s.tableAt_here]
    exact ⟨hs, hrun.exact_of_displacesNone hnew hlt, hunique, hlinked⟩
  have hlive : s.Live (s.locate h) := by
    rw [Workspace.Live, Workspace.locate, s.tableAt_here]
    exact ends_isValid hs h s rfl hvalid
  have hlive' : s.Live (s.locate k) := by
    rw [Workspace.Live, Workspace.locate, s.tableAt_here]
    exact ends_isValid hs k s rfl hvalid'
  obtain ⟨-, hone⟩ := reveals_structurallyEqual hknows hlive hlive' true _ (Prod.ext hequal rfl)
  rw [s.tableAt_here] at hone
  exact (hone rfl).imp_left fun heq => by rw [heq]

/-- Two unnamed functions at one address, with a label in each of them. The labels have the same
name at the same address. -/
theorem Runs.equal_symbols_share_a_key_of_nested :
    let s₀ : Workspace := .ofTable (.empty default .standard)
    let unnamed : Move := .create ⟨"", .function, .ram 16, .global, .default, 0, 0, none⟩
    let label (id : SymbolId) : Move := .create ⟨"x", .label, .ram 32, .of id, .userDefined, 0, 0, none⟩
    let go (s : Workspace) (m : Move) := ((m.action Listener.idle).run s).2
    let s := [unnamed, unnamed, label ⟨1, by decide⟩, label ⟨2, by decide⟩].foldl go s₀
    s₀.table.IsNew .standard ∧ Runs (fun _ t m => m.DisplacesNone t) false s₀ s ∧
      s.table.drawn < UInt64.size - 1 ∧ s.table.NamesUnique ∧ s.table.Linked ∧
      ((isValid 2).run s).1 = .ok true ∧ ((isValid 3).run s).1 = .ok true ∧
      ((structurallyEqual (s.locate 2) (s.locate 3)).run s).1 = .ok true ∧
      ((s.table.handle 2).key = (s.table.handle 3).key ∨
        s.table.Mistakable (s.table.profile 2) (s.table.profile 3)) := by
  intro s₀ unnamed label go s
  have hnew : s₀.table.IsNew .standard := .memory _ _ _
  have hrun : Runs (fun _ t m => m.DisplacesNone t) false s₀ s :=
    .move (.move (.move (.move .refl (.of_ne_relocate trivial nofun) .idle) (.of_ne_relocate trivial nofun) .idle)
      (.of_ne_relocate trivial nofun) .idle) (.of_ne_relocate trivial nofun) .idle
  have hlt : s.table.drawn < UInt64.size - 1 := by decide +kernel
  have hunique : s.table.NamesUnique := by decide +kernel
  have hlinked : s.table.Linked := by decide +kernel
  have hvalid : ((isValid 2).run s).1 = .ok true := by decide +kernel
  have hvalid' : ((isValid 3).run s).1 = .ok true := by decide +kernel
  have hequal : ((structurallyEqual (s.locate 2) (s.locate 3)).run s).1 = .ok true := by decide +kernel
  exact ⟨hnew, hrun, hlt, hunique, hlinked, hvalid, hvalid', hequal,
    Runs.equal_symbols_share_a_key hnew hrun hlt hunique hlinked hvalid hvalid' hequal⟩

/-- Two unnamed functions that were created at one address are equal, but they have different keys.
Their faces are the same as both are named after the address, and their names are unique in so far
as neither has one. -/
theorem Runs.equal_symbols_differ_in_keys :
    let s₀ : Workspace := .ofTable (.empty default .standard)
    let unnamed : Move := .create ⟨"", .function, .ram 16, .global, .default, 0, 0, none⟩
    let go (s : Workspace) (m : Move) := ((m.action Listener.idle).run s).2
    let s := [unnamed, unnamed].foldl go s₀
    s₀.table.IsNew .standard ∧ Runs (fun _ t m => m.DisplacesNone t) false s₀ s ∧
      s.table.drawn < UInt64.size - 1 ∧ s.table.NamesUnique ∧ s.table.Linked ∧
      ((isValid 0).run s).1 = .ok true ∧ ((isValid 1).run s).1 = .ok true ∧
      ((structurallyEqual (s.locate 0) (s.locate 1)).run s).1 = .ok true ∧
      (s.table.handle 0).key ≠ (s.table.handle 1).key := by
  intro s₀ unnamed go s
  have hrun : Runs (fun _ t m => m.DisplacesNone t) false s₀ s :=
    .move (.move .refl (.of_ne_relocate trivial nofun) .idle) (.of_ne_relocate trivial nofun) .idle
  exact ⟨.memory _ _ _, hrun, by decide +kernel, by decide +kernel, by decide +kernel, by decide +kernel,
    by decide +kernel, by decide +kernel, by decide +kernel⟩

end SymbolTable
