import SymbolTable.Proofs.Action.Ends
import SymbolTable.Proofs.Table.View

/-!
# Calls of the store

How an action ends that calls the store of a sound table: it is refused because of an outage, or it
answers what the rows say and leaves the rows that follow from the call.
-/

namespace SymbolTable

/-- At some moment, an outage hits the call. -/
def Store.MayFail (s : Store) (call : Store.Call) (id? : Option SymbolId) (fault : StoreFault) : Prop :=
  ∃ now, s.reach now call id? = .error fault

/-- No call fails. -/
def Store.Works (s : Store) : Prop :=
  ∀ now call id?, s.outages now call id? = none

/-- A store that works refuses nothing, so the case of an outage falls away wherever it is assumed
to work. -/
theorem Store.Works.not_mayFail {s : Store} (h : s.Works) {call : Store.Call} {id? : Option SymbolId}
    {fault : StoreFault} : ¬ s.MayFail call id? fault := by
  rintro ⟨now, hreach⟩
  rw [Store.reach, h] at hreach
  cases hreach

namespace Action.Ends

variable {σ : Type} {t : Table}

/-- A question to the store is refused or answered, and changes nothing. All questions of the code
to a store have this form: the outages are looked up for the moment and the call, and then the rows
are read. -/
theorem askStore_of_eq {α : Type} {q : Store → Nat → Except StoreFault α} {x : α} {call : Store.Call}
    {id? : Option SymbolId} {Q : Except Fault α → Table → Prop}
    (hq : ∀ now, q t.store now = t.store.reach now call id? >>= fun _ => .ok x) (hok : Q (.ok x) t)
    (herror : ∀ fault, t.store.MayFail call id? fault → Q (.error (.store fault)) t) :
    Ends t (Action.askStore q : Action σ α) Q := by
  refine askStore fun now => ?_
  rw [hq]
  cases hreach : t.store.reach now call id? with
  | error fault => exact herror fault ⟨now, hreach⟩
  | ok => exact hok

section
variable (h : t.store.backend.Sound)

include h

/-- The row under an id is asked for. The store answers what the rows say, or the call is hit by an
outage. -/
theorem getRow {id : SymbolId} {Q : Except Fault (Option Row) → Table → Prop}
    (hok : Q (.ok (t.row? id)) t)
    (herror : ∀ fault, t.store.MayFail .get (some id) fault → Q (.error (.store fault)) t) :
    Ends t (getRow id : Action σ _) Q :=
  askStore_of_eq (fun now => by rw [Store.get, h.get_eq]; rfl) hok herror

/-- The rows at an address are asked for. They are answered in the order of their ids, whichever
kind of store it is, or the call fails. -/
theorem rowsAt {a : Address} {Q : Except Fault (List Row) → Table → Prop}
    (hok : Q (.ok (t.rows.filter (·.address = a))) t)
    (herror : ∀ fault, t.store.MayFail .rowsAt none fault → Q (.error (.store fault)) t) :
    Ends t (rowsAt a : Action σ _) Q :=
  askStore_of_eq (fun now => by rw [Store.rowsAt, h.rowsAt_eq]; rfl) hok herror

/-- The rows in a scope are asked for. The first premise is for the answer, and the second is for a
failure, which may be any that the outages allow. -/
theorem rowsIn {scope : Scope} {Q : Except Fault (List Row) → Table → Prop}
    (hok : Q (.ok (t.rows.filter (·.parent = scope))) t)
    (herror : ∀ fault, t.store.MayFail .rowsIn none fault → Q (.error (.store fault)) t) :
    Ends t (rowsIn scope : Action σ _) Q :=
  askStore_of_eq (fun now => by rw [Store.rowsIn, h.rowsIn_eq]; rfl) hok herror

/-- All rows are asked for. -/
theorem allRows {Q : Except Fault (List Row) → Table → Prop} (hok : Q (.ok t.rows) t)
    (herror : ∀ fault, t.store.MayFail .scan none fault → Q (.error (.store fault)) t) :
    Ends t (allRows : Action σ _) Q :=
  askStore_of_eq (fun now => by rw [Store.scan, h.scan_eq]; rfl) hok herror

/-- A row that is put is the row under its id from then on; a failure leaves the rows as they were.
A failure may come from the outages or from a row whose texts do not fit, and it is not told
which. -/
theorem putRow {r : Row} {Q : Except Fault Unit → Table → Prop}
    (hok : ∀ b, t.store.backend.Puts r b → Q (.ok ()) (t.withBackend b))
    (herror : ∀ fault, Q (.error (.store fault)) t) : Ends t (putRow r : Action σ _) Q := by
  refine changeStore fun now => ?_
  simp only [Store.put]
  cases t.store.reach now .put (some r.id) with
  | error fault => exact herror fault
  | ok =>
    cases hput : t.store.backend.put r with
    | error fault => exact herror fault
    | ok b => exact hok b (h.puts hput)

/-- A row is taken out; a failure leaves the rows as they were. Whether there was one is answered.
The failure can only come from the outages. -/
theorem takeRow {id : SymbolId} {Q : Except Fault Bool → Table → Prop}
    (hok : ∀ b, t.store.backend.Removes id b → Q (.ok (t.row? id).isSome) (t.withBackend b))
    (herror : ∀ fault, t.store.MayFail .remove (some id) fault → Q (.error (.store fault)) t) :
    Ends t (takeRow id : Action σ _) Q := by
  obtain ⟨b, hremove, hremoves⟩ := h.exists_remove id
  refine changeStore fun now => ?_
  simp only [Store.remove, hremove]
  cases hreach : t.store.reach now .remove (some id) with
  | error fault => exact herror fault ⟨now, hreach⟩
  | ok => exact hok b hremoves

end

/-- An id is drawn. A draw that fails may change which ids are left. The first two premises are for
an answer and for a failure before the draw, and the third is for one that finds no id. -/
theorem drawId {Q : Except Fault SymbolId → Table → Prop}
    (hok : ∀ id, t.store.backend.allocate.1 = .ok id →
      Q (.ok id) (t.withBackend t.store.backend.allocate.2))
    (herror : ∀ fault, Q (.error (.store fault)) t)
    (hnone : ∀ fault, Q (.error (.store fault)) (t.withBackend t.store.backend.allocate.2)) :
    Ends t (drawId : Action σ _) Q := by
  refine changeStore fun now => ?_
  simp only [Store.allocate]
  cases t.store.reach now .allocate none with
  | error fault => exact herror fault
  | ok =>
    show Q (Except.mapError .store t.store.backend.allocate.1)
      (t.withBackend t.store.backend.allocate.2)
    cases hid : t.store.backend.allocate.1 with
    | error fault => exact hnone fault
    | ok id => exact hok id hid

/-- An id is drawn, and a row is put under it. What fails after the draw leaves it drawn for
nothing. It is the rule for everything that stores a new symbol, with one premise for each way in
which it can end. -/
theorem drawRow (h : t.store.backend.Sound) {α : Type} {row : SymbolId → Row} {f : SymbolId → Action σ α}
    {Q : Except Fault α → Table → Prop}
    (hok : ∀ id b, t.store.backend.allocate.1 = .ok id → t.store.backend.allocate.2.Puts (row id) b →
      Ends (t.withBackend b) (f id) Q)
    (herror : ∀ fault, Q (.error (.store fault)) t)
    (hdrawn : ∀ fault, Q (.error (.store fault)) (t.withBackend t.store.backend.allocate.2)) :
    Ends t (Action.drawId >>= fun id => Action.putRow (row id) >>= fun _ => f id) Q := by
  refine .seq (.drawId (fun id hid => .ok ?_) herror hdrawn)
  exact .seq (.putRow h.allocate.1 (fun b hputs => .ok (hok id b hid hputs)) hdrawn)

end Action.Ends

end SymbolTable
