import SymbolTable.Proofs.Action.Settling
import SymbolTable.Proofs.Action.Walking
import SymbolTable.Proofs.Chronicle

/-!
# Loops of scopes

Rows that are put into the store behind the back of the table can lie in themselves (`Table.Loops`).
No way that ends begins in a loop (`Climbs.not_loops`), so a row that is moved into a scope from
which the way ends without passing it comes to lie in no loop, and no other row does by it
(`Replaces.loops_of_climbs`). As walks answer only where the way ends, no loop is closed by a symbol
that is renamed and moved (`ends_rename_loops`), whatever the store is like.
-/

namespace SymbolTable

open SymbolTable.Action
open Table (Path upkeep)

variable {σ : Type} {t t₁ t' : Table} {notify : Listener σ} {h : HandleId} {id : SymbolId} {scope : Scope} {r row : Row}
  {rs below : List Row}

/-! ## Loops -/

namespace Table

/-- A way that ends and leads up to a symbol goes on from there. It goes on from the symbol, and
what it passes is what comes before the symbol and the rest. The induction is on the way that leads
up. -/
theorem Climbs.exists_rest (hclimbs : t.Climbs scope rs) (hascends : t.Ascends id scope below) :
    ∃ rest, t.Climbs (.of id) rest ∧ rs.length = below.length + rest.length := by
  induction hascends generalizing rs with
  | here => exact ⟨rs, hclimbs, (Nat.zero_add _).symm⟩
  | step hget _ ih =>
    cases hclimbs with
    | lost hnone => cases hnone.symm.trans hget
    | step hget' hrest =>
      cases hget.symm.trans hget'
      obtain ⟨rest, hclimbs, hlength⟩ := ih hrest
      exact ⟨rest, hclimbs, by rw [List.length_cons, List.length_cons, hlength]; omega⟩

/-- The symbol with this id lies in itself: the way up from its parent comes back to it. -/
def Loops (t : Table) (id : SymbolId) : Prop :=
  ∃ r below, t.row? id = some r ∧ t.Ascends id r.parent below

/-- No way that ends begins in a loop. If a way came back to its start, it would go on from there,
and be longer than itself. -/
theorem Climbs.not_loops (hclimbs : t.Climbs (.of id) rs) : ¬ t.Loops id := by
  rintro ⟨r, below, hget, hascends⟩
  cases hclimbs with
  | lost hnone => cases hnone.symm.trans hget
  | step hget' hrest =>
    cases hget.symm.trans hget'
    obtain ⟨rest, hclimbs, hlength⟩ := hrest.exists_rest hascends
    have hsame := congrArg List.length (hclimbs.unique (.step hget hrest))
    rw [List.length_cons] at hsame
    omega

/-! ## Rows that are moved -/

/-- From every row on the way up to a symbol, the way leads on there. The induction is on the way
up: a row on it is the first one, or is on the rest. -/
theorem Ascends.exists_of_mem (hascends : t.Ascends id scope below) {x : Row} (hx : x ∈ below) :
    ∃ rest, t.Ascends id (.of x.id) rest := by
  induction hascends with
  | here => cases hx
  | @step i r rs hget hrest ih =>
    rcases List.mem_cons.1 hx with rfl | hx
    · obtain rfl : x.id = i := id_of_row? hget
      exact ⟨_, .step hget hrest⟩
    · exact ih hx

/-- Where rows stay in their scopes, what leads up to a symbol led up to it before. Each row on the
way lies in the same scope as before, or in the global one, which leads nowhere. The induction is on
the way. -/
theorem Stays.exists_ascends (hstays : t.Stays t') (hascends' : t'.Ascends id scope below) :
    ∃ below, t.Ascends id scope below := by
  induction hascends' with
  | here => exact ⟨[], .here⟩
  | @step i r' rs hget' hrest' ih =>
    rcases hstays i r' hget' with hglobal | ⟨r, hget, hparent⟩
    · rw [hglobal] at hrest'
      cases hrest'
    · obtain ⟨below, hrest⟩ := ih
      exact ⟨r :: below, .step hget (hparent ▸ hrest)⟩

/-- Where rows stay in their scopes, a loop was there before. A row that is in the global scope now
is on no loop, and every other one lies where it lay. -/
theorem Loops.of_stays (hstays : t.Stays t') (hloops' : t'.Loops id) : t.Loops id := by
  obtain ⟨r', below, hget', hascends'⟩ := hloops'
  rcases hstays id r' hget' with hglobal | ⟨r, hget, hparent⟩
  · rw [hglobal] at hascends'
    cases hascends'
  · obtain ⟨below, hascends⟩ := hstays.exists_ascends hascends'
    exact ⟨r, below, hget, hparent ▸ hascends⟩

/-- Whether a symbol lies in itself depends on the rows alone. -/
theorem Loops.congr (hrows : t'.rows = t.rows) (hloops' : t'.Loops id) : t.Loops id :=
  hloops'.of_stays (.of_rows_eq hrows)

namespace Replaces

variable (hreplaces : t.Replaces row t')

include hreplaces

/-- A way that does not pass the row is as it was, and so is one that ends without passing it. Only
the row that was replaced is another one. The induction is on the way. -/
theorem ascends_of_ne (hascends' : t'.Ascends id scope below) (hout : ∀ x ∈ below, x.id ≠ row.id) :
    t.Ascends id scope below := by
  induction hascends' with
  | here => exact .here
  | @step i r rs hget' _ ih =>
    have hne : i ≠ row.id := id_of_row? hget' ▸ hout r (.head _)
    rw [hreplaces, if_neg hne] at hget'
    exact .step hget' (ih fun x hx => hout x (.tail _ hx))

/-- A way that ends and does not pass the row is there when the row was replaced. All rows on it are
still there. The induction is on the way. -/
theorem climbs_of_ne (hget : t.row? row.id = some r) (hclimbs : t.Climbs scope rs) (hout : ∀ x ∈ rs, x.id ≠ row.id) :
    t'.Climbs scope rs := by
  induction hclimbs with
  | global => exact .global
  | @lost i hnone =>
    have hne : i ≠ row.id := by
      rintro rfl
      cases hnone.symm.trans hget
    exact .lost ((hreplaces i).trans ((if_neg hne).trans hnone))
  | @step i x rs hgetx _ ih =>
    have hne : i ≠ row.id := id_of_row? hgetx ▸ hout x (.head _)
    exact .step ((hreplaces i).trans ((if_neg hne).trans hgetx)) (ih fun x hx => hout x (.tail _ hx))

/-- A row that comes to lie in a scope from which the way ends without passing it lies in no loop,
and no loop is new. -/
theorem loops_of_climbs (hget : t.row? row.id = some r) (hclimbs : t.Climbs row.parent rs)
    (hout : ∀ x ∈ rs, x.id ≠ row.id) (hloops' : t'.Loops id) : t.Loops id ∧ id ≠ row.id := by
  have hget' : t'.row? row.id = some row := (hreplaces row.id).trans (if_pos rfl)
  have hends : t'.Climbs (.of row.id) (row :: rs) := .step hget' (hreplaces.climbs_of_ne hget hclimbs hout)
  have hne : id ≠ row.id := by
    rintro rfl
    exact hends.not_loops hloops'
  obtain ⟨x, below, hgetx, hascends⟩ := hloops'
  -- the loop does not pass the row, for the way up from there ends
  have hbeside : ∀ y ∈ below, y.id ≠ row.id := by
    intro y hy hid
    obtain ⟨rest, hrest⟩ := hascends.exists_of_mem hy
    obtain ⟨_, hclimbs', -⟩ := hends.exists_rest (hid ▸ hrest)
    exact hclimbs'.not_loops ⟨x, below, hgetx, hascends⟩
  refine ⟨⟨x, below, ?_, hreplaces.ascends_of_ne hascends hbeside⟩, hne⟩
  rw [← hgetx, hreplaces, if_neg hne]

/-- No loop is new where a row stays in its scope or is moved into one from which the way ends
without passing it, and there is none through a row that is moved. -/
theorem loops (hget : t.row? row.id = some r)
    (hway : row.parent ≠ r.parent → ∃ rs, t.Climbs row.parent rs ∧ ∀ x ∈ rs, x.id ≠ row.id) (hloops' : t'.Loops id) :
    t.Loops id ∧ (row.parent ≠ r.parent → id ≠ row.id) := by
  by_cases hstays : row.parent = r.parent
  · exact ⟨hloops'.of_stays (.of_replaces hreplaces (.inr ⟨r, hget, hstays⟩)), fun hmoves => absurd hstays hmoves⟩
  · obtain ⟨rs, hclimbs, hout⟩ := hway hstays
    have hold := hreplaces.loops_of_climbs hget hclimbs hout hloops'
    exact ⟨hold.1, fun _ => hold.2⟩

end Replaces

end Table

/-- The course on which none but these symbols come to lie in themselves. -/
def Course.looping (among : SymbolId → Prop) : Course :=
  .maintaining (fun t => ∀ i, t.Loops i → among i) fun _ _ _ htended hamong i hloops =>
    hamong i (hloops.congr (Path.rows_eq_of_upkeep (.single htended.stride.step)))

theorem Course.aloof_looping (among : SymbolId → Prop) : (looping among).Aloof := by
  intro t t' _ hbeside _
  have hpath : Path upkeep t t' := .single (.aside hbeside)
  exact maintaining_of_path hpath fun _ hamong i hloops => hamong i (hloops.congr hbeside.rows_eq)

/-- Whatever the listener does, no symbol comes to lie in itself by it. -/
def Listener.ClosesNoLoop (notify : Listener σ) : Prop :=
  ∀ (e : Event) (s : Situated σ), Path (fun _ => True) s.table (notify e s).table ∧
    ∀ i, (notify e s).table.Loops i → s.table.Loops i

/-- A listener that closes no loop may be told on this course, whichever symbols lie in themselves
already. -/
theorem Listener.ClosesNoLoop.heeds (hn : notify.ClosesNoLoop) (among : SymbolId → Prop) :
    Heeds (.looping among) notify :=
  .of_deaf (Course.aloof_looping among).deaf fun e s _ =>
    Course.maintaining_of_path (hn e s).1 fun _ hamong i hloops => hamong i ((hn e s).2 i hloops)

/-- A listener that touches neither rows nor handles closes no loop. -/
theorem Listener.ClosesNoLoop.of_beside (hbeside : ∀ e (x : Situated σ), x.table.Beside (notify e x).table) :
    notify.ClosesNoLoop :=
  fun e s => ⟨.single (.aside (hbeside e s)), fun _ hloops => hloops.congr (hbeside e s).rows_eq⟩

namespace Action

/-- A plan for a stored symbol that is carried out closes no loop, and leaves none around a symbol
that it moves. Its new scope is one from which the way ends without passing the symbol, since this
was checked when the plan was made, and listeners close no loop by what they are told. -/
theorem ends_carryOut_loops {plan : Rename} (ht : t.Reliable) (hn : notify.ClosesNoLoop) (hready : t.IsReady h)
    (hrow : (t.handle h).row = some r) (hplan : Planned t (t.handle h) plan) :
    Ends t (carryOut notify h plan) fun answer t' => ∀ i, t'.Loops i →
      t.Loops i ∧ (answer = .ok () → plan.scope ≠ r.parent → i ≠ r.id) := by
  have hget : t.row? r.id = some r := ht.row?_eq hready hrow
  have hway : plan.scope ≠ r.parent → ∃ rs, t.Climbs plan.scope rs ∧ ∀ x ∈ rs, x.id ≠ r.id := by
    intro hmoves
    rw [← Handle.parent_of_row hrow] at hmoves
    exact hplan.outside hmoves r.id (Handle.id?_eq_some_iff.2 ((ht.sound.inOrder h).key r hrow))
  refine (ends_carryOut_along (hn.heeds fun i => t.Loops i ∧ (plan.scope ≠ r.parent → i ≠ r.id))
    (Course.aloof_looping _).deaf.notes ht.sound).imp ?_
  rintro answer t' (⟨hrefused, hrel⟩ | ⟨t₁, x, b, hrel, hrow₁, hputs, hrest⟩)
  · have hrows : t'.rows = t.rows := (Course.path_of_upkept hrel).rows_eq_of_upkeep
    exact fun i hloops => ⟨hloops.congr hrows, fun hok => absurd hok hrefused⟩
  · have hpath := Course.path_of_upkept hrel
    have hs₁ := hrel.sound ht.sound
    obtain rfl : r = x := Option.some.inj (hrow.symm.trans (hready.handle_eq hpath ▸ hrow₁))
    have hreplaces : t₁.Replaces (plan.apply r) (t₁.written h (plan.apply r) b) := Table.row?_puts hs₁.backend hputs
    have hkept : ∀ i, (t₁.written h (plan.apply r) b).Loops i →
        t.Loops i ∧ (plan.scope ≠ r.parent → i ≠ r.id) :=
      fun i hloops => (hreplaces.congr hpath.rows_eq_of_upkeep rfl).loops hget hway hloops
    intro i hloops
    obtain ⟨hold, hout⟩ := hrest.maintains (hs₁.written hrow₁ rfl rfl hputs) hkept i hloops
    exact ⟨hold, fun _ => hout⟩

/-- A stored symbol that is renamed and moved closes no loop, and lies in none once it was moved. If
it stays in its scope, its loop stays as well. If it does not, the walk from the new scope has
ended, and the symbol lies on its way to the end. -/
theorem ends_rename_loops (ht : t.Reliable) (hworks : t.store.Works) (hn : notify.ClosesNoLoop)
    (hkey : (t.handle h).key = .stored id) (name : String) (scope : Scope) (p : Provenance) :
    Ends t (rename notify h name scope p) fun answer t' => ∀ i, t'.Loops i →
      t.Loops i ∧ (answer = .ok () → ∀ r, t.row? id = some r → r.parent ≠ scope → i ≠ id) := by
  refine .current ht.sound h (fun _ _ hloops => ⟨hloops, nofun⟩)
    (fun _ _ hr _ hloops => ⟨hloops.congr hr.path.rows_eq_of_upkeep, nofun⟩) fun t₁ hr => ?_
  have ht₁ := ht.of_upkeep hr.path
  have hrows : t₁.rows = t.rows := hr.path.rows_eq_of_upkeep
  have hworks₁ : t₁.store.Works := hr.path.upkeep.1 ▸ hworks
  -- the handle has the row that is stored
  obtain ⟨r, hrow, rfl⟩ := (ht₁.sound.inOrder h).exists_row (hr.key_eq.trans hkey) hr.isReady.live
  have hget : t.row? r.id = some r := (Table.row?_congr hrows r.id).symm.trans (ht₁.row?_eq hr.isReady hrow)
  refine ((tells_planRename ht₁.sound h name scope p).and
    (tells_planRename_intends ht₁.sound hworks₁ h name scope p)).ends_bind (fun plan? hplan => ?_)
    fun _ i hloops => ⟨hloops.congr hrows, nofun⟩
  obtain ⟨hplanned, -, hbears, -⟩ := hplan
  cases plan? with
  | none =>
    refine .pure fun i hloops => ⟨hloops.congr hrows, fun _ x hgetx hmoves => absurd ?_ hmoves⟩
    cases hget.symm.trans hgetx
    rw [← (hbears rfl).parent, Handle.parent_of_row hrow]
  | some plan =>
    obtain ⟨hchecked, rfl⟩ := hplanned plan rfl
    refine .look_bind ?_
    rw [Handle.isDerived_of_row hrow, if_neg Bool.false_ne_true]
    refine (ends_carryOut_loops ht₁ hn hr.isReady hrow hchecked).imp fun answer t' hkept i hloops => ?_
    obtain ⟨hold, hout⟩ := hkept i hloops
    refine ⟨hold.congr hrows, fun hok x hgetx hmoves => ?_⟩
    cases hget.symm.trans hgetx
    exact hout hok hmoves.symm

end Action

/-- **Walks up the scopes end, and are exact.** Where the store works, and whatever is in it, a walk
makes no more calls of the store than it may pass rows, and changes nothing. It answers with these
rows, innermost first, if and only if they are those on the way from the scope, no two of them the
same, and the way leads to the global scope and they are no more than the walk may pass, or it leads
up to a parent without a row and they are fewer. Otherwise the chain of scopes is refused as
circular. So a stored symbol that is there is said not to enclose a scope if and only if the walk
from there has an answer and the symbol is not in it. And since a table was opened empty, whatever
was put behind its back: as long as the writes fit a word, and unless the listener closes one, no
loop is closed when a stored symbol is renamed and moved, and none is left around the symbol when it
was moved into another scope. -/
theorem scope_walks_are_exact :
    (∀ s : Situated σ, s.table.Sound → s.table.store.Works →
      (∀ scope,
        (∀ rs, ((ancestors scope).run s).1 = .ok rs ↔ s.table.Surveys s.table.settings.maxDepth scope rs) ∧
        ((∀ rs, ¬ s.table.Surveys s.table.settings.maxDepth scope rs) →
          ((ancestors scope).run s).1 = .error (.circular (.endlessChain scope))) ∧
        ∃ k ≤ s.table.settings.maxDepth, ((ancestors scope).run s).2 = { s with clock := s.clock + k }) ∧
      ∀ h id, (s.table.handle h).key = .stored id → ((isValid h).run s).1 = .ok true →
        ∀ scope, ∃ inside, ((current h (encloses h scope)).run s).1 = .ok inside ∧
          (inside = false ↔ ∃ rs, ((ancestors scope).run s).1 = .ok rs ∧ ∀ r ∈ rs, r.id ≠ id)) ∧
    ∀ (rules : Rules) (s₀ s : Situated σ), s₀.table.IsNew rules → Runs Move.any false s₀ s → s.table.store.Works →
      s.table.writes < UInt64.size → ∀ notify : Listener σ, notify.ClosesNoLoop →
      ∀ h id, (s.table.handle h).key = .stored id →
        ∀ name scope p answer s', (rename notify h name scope p).run s = (answer, s') →
          (∀ i, s'.table.Loops i → s.table.Loops i) ∧
            (answer = .ok () → ∀ r, s.table.row? id = some r → r.parent ≠ scope → ¬ s'.table.Loops id) := by
  refine ⟨fun s hs hworks => ?_,
    fun rules s₀ s hnew hrun hworks hlt notify hn h id hkey name scope p answer s' hrenames => ?_⟩
  · have hwalk (scope : Scope) := (ends_ancestors (σ := σ) hs.backend hworks scope s rfl).2
    refine ⟨fun scope => ⟨(hwalk scope).ok_iff, (hwalk scope).eq_error, exists_run_climb scope _ [] scope s⟩,
      fun h id hkey hvalid scope => ?_⟩
    obtain ⟨s₁, hcurrent, hrest⟩ := exists_run_current hvalid
    have hrefreshed : Ends s.table (current h (pure ()) : Action σ Unit) fun answer t' =>
        answer = .ok () → s.table.Refreshed h (.ok ()) t' :=
      .current hs h (fun _ => nofun) (fun _ _ _ => nofun) fun _ hr => .pure fun _ => hr
    have hr : s.table.Refreshed h (.ok ()) s₁.table := by
      have hr := hrefreshed s rfl
      rw [hcurrent] at hr
      exact hr rfl
    have hid : (s₁.table.handle h).id? = some id := Handle.id?_eq_some_iff.2 (hr.key_eq.trans hkey)
    have hworks₁ : s₁.table.store.Works := hr.path.upkeep.1 ▸ hworks
    obtain ⟨inside, hanswer, -, hinside⟩ :=
      answers_encloses (σ := σ) (hr.path.sound hs).backend hworks₁ hid scope s₁ rfl
    refine ⟨inside, (congrArg Prod.fst (hrest _)).trans hanswer, ?_⟩
    simp only [hinside, (hwalk scope).ok_iff, hr.path.sameFrame.settings,
      Table.surveys_congr hr.path.rows_eq_of_upkeep]
  · have ht := Runs.reliable hnew hrun hlt
    have hkept := ends_rename_loops ht hworks hn hkey name scope p s rfl
    rw [hrenames] at hkept
    refine ⟨fun i hloops => (hkept i hloops).1, fun hok r hget hmoves hloops => ?_⟩
    exact (hkept id hloops).2 hok r hget hmoves rfl

/-- Where two rows may be passed, there are scopes that lie in each other, one that lies in itself
and two that come to nothing. One that the way from the inner scope does not pass is moved there,
and one that it passes is not. -/
theorem scope_walks_are_exact_of_two :
    let settings : Settings := { (default : Settings) with maxDepth := 2 }
    let s₀ : Situated Unit := ⟨.empty settings .standard, (), 0⟩
    let outer : SymbolId := ⟨1, by decide⟩
    let moved : SymbolId := ⟨2, by decide⟩
    let inner : SymbolId := ⟨3, by decide⟩
    let innermost : SymbolId := ⟨4, by decide⟩
    let itself : SymbolId := ⟨5, by decide⟩
    let one : SymbolId := ⟨6, by decide⟩
    let other : SymbolId := ⟨7, by decide⟩
    let lost : SymbolId := ⟨8, by decide⟩
    let beyond : SymbolId := ⟨9, by decide⟩
    let missing : SymbolId := ⟨10, by decide⟩
    let row (id : SymbolId) (scope : Scope) : Row := .fresh id .namespaceScope .nowhere "n" scope .userDefined
    let scope (name : String) : Draft := ⟨name, .namespaceScope, .nowhere, .global, .userDefined, 0, 0, none⟩
    let go (s : Situated Unit) (m : Move) := ((m.action Listener.recorder).run s).2
    let s := [.create (scope "outer"), .create (scope "moved"), .put (row inner (.of outer)),
      .put (row innermost (.of inner)), .put (row itself (.of itself)), .put (row one (.of other)),
      .put (row other (.of one)), .put (row lost (.of missing)), .put (row beyond (.of lost))].foldl go s₀
    let walk (id : SymbolId) := ((ancestors (.of id)).run s).1
    let refused (id : SymbolId) : Except Fault (List Row) := .error (.circular (.endlessChain (.of id)))
    let inside (h : HandleId) (id : SymbolId) := ((current h (encloses h (.of id))).run s).1
    let move (h : HandleId) (id : SymbolId) := (rename Listener.recorder h "m" (.of id) .userDefined).run s
    s.table.Sound ∧ s.table.store.Works ∧ s₀.table.IsNew .standard ∧ Runs Move.any false s₀ s ∧
      s.table.writes < UInt64.size ∧ (Listener.recorder : Listener Unit).ClosesNoLoop ∧
      (s.table.handle 1).key = .stored moved ∧ ((isValid 1).run s).1 = .ok true ∧
      [inner, innermost, itself, one, lost, beyond, missing].map walk =
        [.ok [row inner (.of outer), (scope "outer").row outer], refused innermost, refused itself, refused one,
          .ok [row lost (.of missing)], refused beyond, .ok []] ∧
      s.table.Surveys 2 (.of inner) [row inner (.of outer), (scope "outer").row outer] ∧
      (∀ rs, ¬ s.table.Surveys 2 (.of beyond) rs) ∧
      inside 0 inner = .ok true ∧ inside 1 inner = .ok false ∧ inside 1 beyond = .ok true ∧
      (move 0 inner).1 ≠ .ok () ∧ s.table.Loops one ∧ ∃ s', move 1 inner = (.ok (), s') ∧
        (∀ id, s'.table.Loops id → s.table.Loops id) ∧ ¬ s'.table.Loops moved := by
  intro settings s₀ outer moved inner innermost itself one other lost beyond missing row scope go s walk refused inside
    move
  have hnew : s₀.table.IsNew .standard := .memory _ _ _
  have hchronicle : Chronicle Move.any false s₀ s :=
    .move (.move (.move (.move (.move (.move (.move (.move (.move .refl trivial .recorder) trivial .recorder) trivial
      .recorder) trivial .recorder) trivial .recorder) trivial .recorder) trivial .recorder) trivial .recorder) trivial
      .recorder
  have hrun := hchronicle.runs
  have hworks := hchronicle.works hnew.sound fun _ _ _ => rfl
  have hs : s.table.Sound := (hrun.path trivial Move.permitted_any hnew.sound).sound hnew.sound
  have hlt : s.table.writes < UInt64.size := by decide +kernel
  have hn : (Listener.recorder : Listener Unit).ClosesNoLoop := .of_beside fun _ _ => ⟨rfl, rfl, rfl, rfl, rfl, rfl⟩
  have hkey : (s.table.handle 1).key = .stored moved := by decide +kernel
  have hvalid : ((isValid 1).run s).1 = .ok true := by decide +kernel
  have hinner : ((ancestors (.of inner)).run s).1 = .ok [row inner (.of outer), (scope "outer").row outer] := by
    decide +kernel
  have hbeyond : ((ancestors (.of beyond)).run s).1 = refused beyond := by decide +kernel
  have hmoves : (move 1 inner).1 = .ok () := by decide +kernel
  obtain ⟨s', hmove⟩ : ∃ s', move 1 inner = (.ok (), s') := ⟨(move 1 inner).2, by rw [← hmoves]⟩
  have hrow : s.table.row? moved = some ((scope "moved").row moved) := by decide +kernel
  obtain ⟨hexact, hkept⟩ := scope_walks_are_exact (σ := Unit)
  obtain ⟨hwalks, hencloses⟩ := hexact s hs hworks
  have hdepth : s.table.settings.maxDepth = 2 := by decide +kernel
  rw [hdepth] at hwalks
  have hclosed := hkept .standard s₀ s hnew hrun hworks hlt Listener.recorder hn 1 moved hkey "m" (.of inner)
    .userDefined (.ok ()) s' hmove
  have hloop : s.table.Loops one := by
    have hone : s.table.row? one = some (row one (.of other)) := by decide +kernel
    have hother : s.table.row? other = some (row other (.of one)) := by decide +kernel
    exact ⟨_, _, hone, .step hother .here⟩
  refine ⟨hs, hworks, hnew, hrun, hlt, hn, hkey, hvalid, by decide +kernel, ((hwalks (.of inner)).1 _).1 hinner,
    fun rs hsurveys => ?_, by decide +kernel, by decide +kernel, ?_, by decide +kernel, hloop, s', hmove, hclosed.1,
    hclosed.2 rfl _ hrow (by decide +kernel)⟩
  · have hok := ((hwalks (.of beyond)).1 rs).2 hsurveys
    rw [hbeyond] at hok
    cases hok
  · obtain ⟨answer, hanswer, hfalse⟩ := hencloses 1 moved hkey hvalid (.of beyond)
    rw [hbeyond] at hfalse
    cases answer with
    | true => exact hanswer
    | false =>
      obtain ⟨rs, hok, -⟩ := hfalse.1 rfl
      cases hok

end SymbolTable
