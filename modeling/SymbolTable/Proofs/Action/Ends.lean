import SymbolTable.Action

/-!
# How actions end

`Ends t a Q` says how an action ends that is run at the table `t`: with an answer or a refusal, and
a table, of which `Q` holds. It says so for every surrounding and for every moment, so it does not
say which calls of the store fail. There is one rule for each way to build an action. An action
`Reads` if it always leaves the table as it was.
-/

namespace SymbolTable.Action

-- how an action ends at a given table can be computed and compared
deriving instance DecidableEq for Except

variable {σ α β : Type} {t : Table} {Q R : Except Fault α → Table → Prop}

/-- Run at a table, the action ends as `Q` says, whatever is around the table and whenever it
runs. -/
def Ends (t : Table) (a : Action σ α) (Q : Except Fault α → Table → Prop) : Prop :=
  ∀ s : Situated σ, s.table = t → Q (a.run s).1 (a.run s).2.table

namespace Ends

/-- What is known of the end of an action may be weakened. Most rules say more of it than is needed
where they are used. -/
theorem imp {a : Action σ α} (h : Ends t a R) (hQ : ∀ r t', R r t' → Q r t') : Ends t a Q := by
  intro s hs
  exact hQ _ _ (h s hs)

/-- Two things that are known of the end of one action are known together. -/
theorem and {a : Action σ α} (h : Ends t a Q) (h' : Ends t a R) :
    Ends t a fun r t' => Q r t' ∧ R r t' :=
  fun s hs => ⟨h s hs, h' s hs⟩

/-! ## Primitive actions -/

/-- The rule of an action that only answers: the table stays as it is. -/
theorem pure {x : α} (h : Q (.ok x) t) : Ends t (pure x : Action σ α) Q := by
  rintro s rfl
  exact h

/-- The rule of a refusal: the table stays as it is, and nothing that comes after it happens. -/
theorem fail {fault : Fault} (h : Q (.error fault) t) : Ends t (fail fault : Action σ α) Q := by
  rintro s rfl
  exact h

theorem look {q : Table → α} (h : Q (.ok (q t)) t) : Ends t (look q : Action σ α) Q := by
  rintro s rfl
  exact h

/-- The rule of a question to the table that can be refused. -/
theorem ask {q : Table → Except Fault α} (h : Q (q t) t) : Ends t (ask q : Action σ α) Q := by
  rintro s rfl
  exact h

/-- The rule of a change of the table, which is made in one and is never refused. -/
theorem change {f : Table → Table} {Q : Except Fault Unit → Table → Prop} (h : Q (.ok ()) (f t)) :
    Ends t (change f : Action σ Unit) Q := by
  rintro s rfl
  exact h

/-- The rule of an answer that was put aside and is given at last. It may be a refusal. -/
theorem conclude {r : Except Fault α} (h : Q r t) : Ends t (conclude r : Action σ α) Q := by
  rintro s rfl
  rw [run_conclude]
  exact h

/-- The rule of an attempt: a refusal is an answer like any other then, and the action goes on after
it. -/
theorem attempt {a : Action σ α} {Q : Except Fault (Except Fault α) → Table → Prop}
    (h : Ends t a fun r t' => Q (.ok r) t') : Ends t (attempt a) Q :=
  h

/-- The rule of a question to the store. It is asked at a moment that is not known, so whatever can
be answered then has to be expected. -/
theorem askStore {q : Store → Nat → Except StoreFault α}
    (h : ∀ now, Q ((q t.store now).mapError .store) t) : Ends t (askStore q : Action σ α) Q := by
  rintro s rfl
  exact h s.clock

/-- The rule of a change of the store. Which calls fail may depend on the moment, so it has to be
right for every moment. -/
theorem changeStore {f : Store → Nat → Except StoreFault α × Store}
    (h : ∀ now, Q ((f t.store now).1.mapError .store) { t with store := (f t.store now).2 }) :
    Ends t (changeStore f : Action σ α) Q := by
  rintro s rfl
  exact h s.clock

/-- The rule of what is told to a listener. Nothing is known of the surroundings that the listener
works on but the table, and the table afterwards is whatever the listener leaves. -/
theorem emit {notify : Listener σ} {key : Key} {a : Address} {c : Change}
    {Q : Except Fault Unit → Table → Prop}
    (h : ∀ s : Situated σ, s.table = t → Q (.ok ()) (notify ⟨key, a, c⟩ s).table) :
    Ends t (emit notify key a c) Q :=
  h

/-! ## One action after another -/

/-- The rule of two actions, one after the other. What `R` says of the first one has to be enough
for the second, and for the end if the first one is refused. -/
theorem bind {a : Action σ α} {f : α → Action σ β} {Q : Except Fault β → Table → Prop}
    (h : Ends t a R) (hok : ∀ x t', R (.ok x) t' → Ends t' (f x) Q)
    (herror : ∀ fault t', R (.error fault) t' → Q (.error fault) t') : Ends t (a >>= f) Q := by
  intro s hs
  have hR := h s hs
  rw [run_bind]
  cases ha : a.run s with
  | mk answer s' =>
    rw [ha] at hR
    cases answer with
    | ok x => exact hok x _ hR s' rfl
    | error fault => exact herror fault _ hR

/-- What comes after an action ends well. -/
def Then (f : α → Action σ β) (Q : Except Fault β → Table → Prop) :
    Except Fault α → Table → Prop
  | .ok x, t => Ends t (f x) Q
  | .error fault, t => Q (.error fault) t

/-- Where the answer of an action is known, `Then` is what is to be shown of the action that comes
after it. -/
theorem Then.ok {f : α → Action σ β} {Q : Except Fault β → Table → Prop} {x : α}
    (h : Ends t (f x) Q) : Then f Q (.ok x) t :=
  h

/-- The rule of `bind` with the weakest that has to be known of the first action. -/
theorem seq {a : Action σ α} {f : α → Action σ β} {Q : Except Fault β → Table → Prop}
    (h : Ends t a (Then f Q)) : Ends t (a >>= f) Q :=
  bind h (fun _ _ hf => hf) fun _ _ hfault => hfault

/-- The rule of a question to the table that the rest of the action begins with. It is put into the
rest at once, so no case is left of it. -/
theorem look_bind {q : Table → β} {f : β → Action σ α} (h : Ends t (f (q t)) Q) :
    Ends t (Action.look q >>= f) Q := by
  rintro s rfl
  exact h s rfl

/-- The rule of a question to the table that can be refused and that the rest of the action begins
with. There is one premise for each outcome. A refused question leaves the table alone, and the rest
is not done then. -/
theorem ask_bind {q : Table → Except Fault β} {f : β → Action σ α}
    (hok : ∀ x, q t = .ok x → Ends t (f x) Q)
    (herror : ∀ fault, q t = .error fault → Q (.error fault) t) :
    Ends t (Action.ask q >>= f) Q := by
  refine bind (R := fun r t' => q t = r ∧ t' = t) (ask ⟨rfl, rfl⟩) ?_ ?_
  · rintro x _ ⟨hx, rfl⟩
    exact hok x hx
  · rintro fault _ ⟨hfault, rfl⟩
    exact herror fault hfault

/-- The rule of a change of the table that the rest of the action begins with: the rest runs at the
changed table. -/
theorem change_bind {g : Table → Table} {f : Unit → Action σ α} (h : Ends (g t) (f ()) Q) :
    Ends t (Action.change g >>= f) Q := by
  rintro s rfl
  exact h _ rfl

/-- The rule of an attempt that the rest of the action begins with. The rest sees the refusal and
goes on from the table that it left. -/
theorem attempt_bind {a : Action σ β} {f : Except Fault β → Action σ α}
    {R : Except Fault β → Table → Prop} (h : Ends t a R)
    (hf : ∀ r t', R r t' → Ends t' (f r) Q) : Ends t (Action.attempt a >>= f) Q := by
  intro s hs
  exact hf _ _ (h s hs) _ rfl

/-- The rule of an action whose answer is turned into another one, which makes no difference to the
table. -/
theorem map {a : Action σ β} {f : β → α} {R : Except Fault β → Table → Prop} (h : Ends t a R)
    (hok : ∀ x t', R (.ok x) t' → Q (.ok (f x)) t')
    (herror : ∀ fault t', R (.error fault) t' → Q (.error fault) t') : Ends t (f <$> a) Q := by
  rw [map_eq_pure_bind]
  exact bind h (fun x t' hx => pure (hok x t' hx)) herror

end Ends

/-! ## Actions that read -/

/-- The action leaves every table as it was. -/
def Reads (a : Action σ α) : Prop :=
  ∀ t, Ends t a fun _ t' => t' = t

namespace Reads

/-- To answer reads. -/
theorem pure (x : α) : Reads (Pure.pure x : Action σ α) := fun _ => .pure rfl

/-- A refusal reads, in that it changes nothing. -/
theorem fail (fault : Fault) : Reads (fail fault : Action σ α) := fun _ => .fail rfl

/-- To look at the table reads. -/
theorem look (q : Table → α) : Reads (look q : Action σ α) := fun _ => .look rfl

/-- To ask the table something reads, even if it is refused. -/
theorem ask (q : Table → Except Fault α) : Reads (ask q : Action σ α) := fun _ => .ask rfl

/-- To give an answer that was put aside reads. -/
theorem conclude (r : Except Fault α) : Reads (conclude r : Action σ α) := fun _ => .conclude rfl

/-- Questions to the store read. Whether they are answered depends on the moment, but the table is
left alone either way. -/
theorem askStore (q : Store → Nat → Except StoreFault α) : Reads (askStore q : Action σ α) :=
  fun _ => .askStore fun _ => rfl

/-- An attempt at something that reads reads. -/
theorem attempt {a : Action σ α} (h : Reads a) : Reads (attempt a) := fun t => .attempt (h t)

/-- Actions that read, one after the other, read. Together with the rules above this takes care of
all checks and searches without a look at what they answer. -/
theorem bind {a : Action σ α} {f : α → Action σ β} (ha : Reads a) (hf : ∀ x, Reads (f x)) :
    Reads (a >>= f) := by
  intro t
  refine .bind (ha t) ?_ ?_
  · rintro x _ rfl
    exact hf x _
  · rintro fault _ rfl
    rfl

/-- To turn the answer of an action that reads into another one reads. -/
theorem map {a : Action σ α} {f : α → β} (ha : Reads a) : Reads (f <$> a) := by
  rw [map_eq_pure_bind]
  exact ha.bind fun x => pure (f x)

/-- To read something for each element of a list reads. The induction is on the list. -/
theorem mapM {f : α → Action σ β} (hf : ∀ x, Reads (f x)) (xs : List α) : Reads (xs.mapM f) := by
  induction xs with
  | nil => exact pure []
  | cons x xs ih =>
    rw [List.mapM_cons]
    exact (hf x).bind fun y => ih.bind fun ys => pure (y :: ys)

/-- What comes after an action that reads runs at the same table. A refusal of the action ends the
whole, with the table as it was. -/
theorem ends_bind {a : Action σ α} {f : α → Action σ β} {Q : Except Fault β → Table → Prop}
    (ha : Reads a) (hf : ∀ x, Ends t (f x) Q) (hfault : ∀ fault, Q (.error fault) t) :
    Ends t (a >>= f) Q := by
  refine .bind (ha t) ?_ ?_
  · rintro x _ rfl
    exact hf x
  · rintro fault _ rfl
    exact hfault fault

end Reads

/-- Run at a table, the action leaves it as it was, and what it answers satisfies `P`. -/
def Tells (t : Table) (a : Action σ α) (P : α → Prop) : Prop :=
  Ends t a fun r t' => t' = t ∧ ∀ x, r = .ok x → P x

namespace Tells

variable {a : Action σ α} {P : α → Prop}

theorem pure {x : α} (h : P x) : Tells t (Pure.pure x : Action σ α) P := by
  refine Ends.pure ⟨rfl, ?_⟩
  rintro _ ⟨⟩
  exact h

/-- A refusal tells anything, as there is no answer. -/
theorem fail {fault : Fault} : Tells t (fail fault : Action σ α) P :=
  Ends.fail ⟨rfl, nofun⟩

theorem look {q : Table → α} (h : P (q t)) : Tells t (look q : Action σ α) P := by
  refine Ends.look ⟨rfl, ?_⟩
  rintro _ ⟨⟩
  exact h

/-- What comes after an action that tells something runs at the same table, and knows it. The answer
is among those of which `P` holds, and a refusal ends the whole with the table as it was. -/
theorem ends_bind {f : α → Action σ β} {Q : Except Fault β → Table → Prop} (h : Tells t a P)
    (hf : ∀ x, P x → Ends t (f x) Q) (hfault : ∀ fault, Q (.error fault) t) :
    Ends t (a >>= f) Q := by
  refine Ends.bind h ?_ ?_
  · rintro x t' ⟨rfl, hx⟩
    exact hf x (hx x rfl)
  · rintro fault t' ⟨rfl, -⟩
    exact hfault fault

/-- What the first action told may be used for what the second one tells. The table is the same for
both. -/
theorem bind {f : α → Action σ β} {P' : β → Prop} (h : Tells t a P)
    (hf : ∀ x, P x → Tells t (f x) P') : Tells t (a >>= f) P' :=
  h.ends_bind hf fun _ => ⟨rfl, nofun⟩

theorem look_bind {q : Table → β} {f : β → Action σ α} (h : Tells t (f (q t)) P) :
    Tells t (Action.look q >>= f) P :=
  Ends.look_bind h

/-- The rule of a question to the table that can be refused: the rest begins only if it is
answered. -/
theorem ask_bind {q : Table → Except Fault β} {f : β → Action σ α}
    (h : ∀ x, q t = .ok x → Tells t (f x) P) : Tells t (Action.ask q >>= f) P :=
  Ends.ask_bind h fun _ _ => ⟨rfl, nofun⟩

/-- The rule of an attempt that the rest begins with. What the first action tells is known if it
answered, and nothing is known if it was refused. -/
theorem attempt_bind {f : Except Fault α → Action σ β} {P' : β → Prop} (h : Tells t a P)
    (hf : ∀ r, (∀ x, r = .ok x → P x) → Tells t (f r) P') : Tells t (Action.attempt a >>= f) P' := by
  refine Ends.attempt_bind h ?_
  rintro r t' ⟨rfl, hr⟩
  exact hf r hr

end Tells

/-! ## Actions that answer -/

/-- Run at a table, the action is not refused, and `P` holds of its answer and of the table then. -/
def Answers (t : Table) (a : Action σ α) (P : α → Table → Prop) : Prop :=
  Ends t a fun r t' => ∃ x, r = .ok x ∧ P x t'

namespace Answers

variable {a : Action σ α} {P : α → Table → Prop}

theorem pure {x : α} (h : P x t) : Answers t (Pure.pure x : Action σ α) P :=
  Ends.pure ⟨x, rfl, h⟩

theorem look_bind {q : Table → β} {f : β → Action σ α} (h : Answers t (f (q t)) P) :
    Answers t (Action.look q >>= f) P :=
  Ends.look_bind h

/-- Actions that are not refused, one after the other, are not refused. What the first one answers
and leaves may be used for the second. -/
theorem bind {f : α → Action σ β} {P' : β → Table → Prop} (h : Answers t a P)
    (hf : ∀ x t', P x t' → Answers t' (f x) P') : Answers t (a >>= f) P' := by
  refine Ends.bind h ?_ ?_
  · rintro x t' ⟨_, ⟨⟩, hx⟩
    exact hf x t' hx
  · rintro fault t' ⟨x, hx, -⟩
    cases hx

/-- The rule of an action whose answer is turned into another one. -/
theorem map {f : α → β} {P' : β → Table → Prop} (h : Answers t a P)
    (hf : ∀ x t', P x t' → P' (f x) t') : Answers t (f <$> a) P' := by
  rw [map_eq_pure_bind]
  exact h.bind fun x t' hx => .pure (hf x t' hx)

/-- However the action ends, it ends with an answer. What is known of the end in any case is then
known of the answer. -/
theorem and {R : Except Fault α → Table → Prop} (h : Answers t a P) (h' : Ends t a R) :
    Answers t a fun x t' => P x t' ∧ R (.ok x) t' := by
  refine (Ends.and h h').imp ?_
  rintro r t' ⟨⟨x, rfl, hx⟩, hr⟩
  exact ⟨x, rfl, hx, hr⟩

/-- What is known of the answer and of the table that is left may be weakened. -/
theorem imp {P' : α → Table → Prop} (h : Answers t a P) (hP : ∀ x t', P x t' → P' x t') :
    Answers t a P' :=
  Ends.imp h fun _ t' ⟨x, hr, hx⟩ => ⟨x, hr, hP x t' hx⟩

/-- What comes after an action that answers knows the answer. The action is not refused, so nothing
has to be said of that. -/
theorem ends_bind {f : α → Action σ β} {Q : Except Fault β → Table → Prop} (h : Answers t a P)
    (hf : ∀ x t', P x t' → Ends t' (f x) Q) : Ends t (a >>= f) Q := by
  refine Ends.bind h ?_ ?_
  · rintro x t' ⟨_, ⟨⟩, hx⟩
    exact hf x t' hx
  · rintro fault t' ⟨x, hx, -⟩
    cases hx

/-- What holds at the end, whatever the answer is. No case of a refusal has to be considered. -/
theorem ends {Q : Table → Prop} (h : Answers t a P) (hQ : ∀ x t', P x t' → Q t') :
    Ends t a fun _ t' => Q t' := by
  refine Ends.imp h ?_
  rintro _ t' ⟨x, -, hx⟩
  exact hQ x t' hx

/-- An answer that is known of a table that stays as it is. It is how a lemma on answers is used
where only what is told matters. -/
theorem tells {P : α → Prop} (h : Answers t a fun x t' => P x ∧ t' = t) : Tells t a P := by
  refine Ends.imp h ?_
  rintro _ t' ⟨x, rfl, hx, rfl⟩
  refine ⟨rfl, ?_⟩
  rintro _ ⟨⟩
  exact hx

/-- An action that is not refused runs through, with an answer and surroundings that can be named.
This is how what is known of all runs is used for one of them. -/
theorem exists_run {s : Situated σ} (h : Answers s.table a P) :
    ∃ x s', a.run s = (.ok x, s') ∧ P x s'.table := by
  obtain ⟨x, hanswer, hx⟩ := h s rfl
  exact ⟨x, _, Prod.ext hanswer rfl, hx⟩

end Answers

/-- Of an action that reads nothing else has to be known where its answer is of no interest. -/
theorem Reads.tells {a : Action σ α} (h : Reads a) : Tells t a fun _ => True := by
  refine (h t).imp ?_
  rintro r _ rfl
  exact ⟨rfl, fun _ _ => trivial⟩

end SymbolTable.Action
