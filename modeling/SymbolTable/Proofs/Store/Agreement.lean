import SymbolTable.Proofs.Store.Backend

/-!
# Both kinds of stores answer alike

A `Request` is one call of a store, and `Store.answers` are the answers to a list of them, one after
the other. Two backends agree if both are sound and have the same rows, as many writes and as many
ids drawn (`Backend.Agrees`). What a sound backend answers follows from these three, so backends
that agree answer alike, and every call leaves them in agreement (`Agrees.serve`). The main
statement is `Store.answers_memory_eq_indexed`: stores that start empty answer every list of calls
alike, whether they keep rows in memory or bytes under indexes.
-/

namespace SymbolTable.Store

/-- A call of a store. -/
inductive Request where
  | allocate
  | put (r : Row)
  | get (id : SymbolId)
  | remove (id : SymbolId)
  | rowsAt (a : Address)
  | rowsIn (parent : Scope)
  | scan
  | size
  | isEmpty
  | modificationCount
  deriving DecidableEq

/-- What a store answers to a call. -/
inductive Answer where
  | done
  | id (id : SymbolId)
  | row (r : Option Row)
  | rows (rs : List Row)
  | flag (b : Bool)
  | count (n : Nat)
  | word (w : UInt64)
  deriving DecidableEq

/-- Makes a call at a moment. A write that fails leaves the store as it was. -/
def serve (s : Store) (moment : Nat) : Request → Except StoreFault Answer × Store
  | .allocate => (.id <$> (s.allocate moment).1, (s.allocate moment).2)
  | .put r =>
    match s.put moment r with
    | .ok s' => (.ok .done, s')
    | .error fault => (.error fault, s)
  | .get id => (.row <$> s.get moment id, s)
  | .remove id =>
    match s.remove moment id with
    | .ok (existed, s') => (.ok (.flag existed), s')
    | .error fault => (.error fault, s)
  | .rowsAt a => (.rows <$> s.rowsAt moment a, s)
  | .rowsIn parent => (.rows <$> s.rowsIn moment parent, s)
  | .scan => (.rows <$> s.scan moment, s)
  | .size => (.count <$> s.size moment, s)
  | .isEmpty => (.flag <$> s.isEmpty moment, s)
  | .modificationCount => (.ok (.word s.modificationCount), s)

/-- Makes calls one after the other. -/
def answers : Store → (moment : Nat) → List Request → List (Except StoreFault Answer)
  | _, _, [] => []
  | s, moment, q :: qs =>
    (s.serve moment q).1 :: answers (s.serve moment q).2 (moment + 1) qs

/-! ## Backends that agree -/

/-- Both are sound, and nothing that an answer depends on tells them apart. -/
structure Backend.Agrees (b c : Backend) : Prop where
  left : b.Sound
  right : c.Sound
  rows : b.rows = c.rows
  writes : b.writes = c.writes
  drawn : b.drawn = c.drawn

namespace Backend.Agrees

variable {b c : Backend} (h : b.Agrees c)

include h

/-- Putting the same row keeps backends in agreement. Both take a row whose texts fit, and the rows
with other ids stay in both. One that does not fit would be kept in memory and refused on disk. -/
theorem put {r : Row} (hfits : Row.Layout.fits r = true) :
    ∃ b' c', b.put r = .ok b' ∧ c.put r = .ok c' ∧ b'.Agrees c' := by
  obtain ⟨b', hb⟩ := h.left.exists_put hfits
  obtain ⟨c', hc⟩ := h.right.exists_put hfits
  have hputs := h.left.puts hb
  have hputs' := h.right.puts hc
  refine ⟨b', c', hb, hc, hputs.sound, hputs'.sound, ?_, ?_, ?_⟩
  · refine hputs'.sound.ascending_rows.eq_of_mem_iff hputs.sound.ascending_rows fun x => ?_
    rw [hputs.mem_rows, hputs'.mem_rows, h.rows]
  · rw [hputs.writes, hputs'.writes, h.writes]
  · rw [hputs.drawn, hputs'.drawn, h.drawn]

/-- Taking out the same row keeps backends in agreement. Both say whether there was one, and count
the write only if there was. -/
theorem remove (id : SymbolId) :
    ∃ existed b' c', b.remove id = .ok (existed, b') ∧ c.remove id = .ok (existed, c') ∧
      b'.Agrees c' := by
  obtain ⟨b', hb, hremoves⟩ := h.left.exists_remove id
  obtain ⟨c', hc, hremoves'⟩ := h.right.exists_remove id
  refine ⟨_, b', c', hb, h.rows ▸ hc, hremoves.sound, hremoves'.sound, ?_, ?_, ?_⟩
  · refine hremoves'.sound.ascending_rows.eq_of_mem_iff hremoves.sound.ascending_rows fun x => ?_
    rw [hremoves.mem_rows, hremoves'.mem_rows, h.rows]
  · rw [hremoves.writes, hremoves'.writes, h.writes, h.rows]
  · rw [hremoves.drawn, hremoves'.drawn, h.drawn]

/-- Drawing an id keeps backends in agreement as long as there are ids. The two kinds of stores go
apart when ids run out, which is why they have to remain. -/
theorem allocate (hlt : b.drawn + 1 < UInt64.size - 1) :
    b.allocate.1 = c.allocate.1 ∧ b.allocate.2.Agrees c.allocate.2 ∧
      b.allocate.2.drawn = b.drawn + 1 := by
  obtain ⟨id, hid, hval, hdrawn⟩ := h.left.allocate_of_lt hlt
  obtain ⟨id', hid', hval', hdrawn'⟩ := h.right.allocate_of_lt (h.drawn ▸ hlt)
  obtain ⟨hsound, hrows, hwrites, -⟩ := h.left.allocate
  obtain ⟨hsound', hrows', hwrites', -⟩ := h.right.allocate
  refine ⟨?_, ⟨hsound, hsound', ?_, ?_, ?_⟩, hdrawn⟩
  · have hsame : id = id' := by
      refine SymbolId.ext (UInt64.toNat_inj.1 ?_)
      rw [hval, hval', h.drawn]
    rw [hid, hid', hsame]
  · rw [hrows, hrows', h.rows]
  · rw [hwrites, hwrites', h.writes]
  · rw [hdrawn, hdrawn', h.drawn]

end Backend.Agrees

/-! ## Stores that agree -/

/-- Both have the same outages, and backends that agree. -/
structure Agrees (s t : Store) : Prop where
  outages : s.outages = t.outages
  backend : s.backend.Agrees t.backend

namespace Agrees

variable {s t : Store} (h : s.Agrees t) (moment : Nat)

include h

/-- A call of either store fails at the same moments, since outages are planned by the moment, the
sort of call and the id. -/
theorem reach_eq (call : Call) (id? : Option SymbolId) :
    s.reach moment call id? = t.reach moment call id? := by
  rw [reach, reach, h.outages]

/-- A call that changes nothing is answered alike. The stores agree already, and nothing is drawn by
it. -/
theorem serve_of_eq {q : Request} {a : Except StoreFault Answer}
    (hs : s.serve moment q = (a, s)) (ht : t.serve moment q = (a, t)) :
    (s.serve moment q).1 = (t.serve moment q).1 ∧
      (s.serve moment q).2.Agrees (t.serve moment q).2 ∧
      (s.serve moment q).2.backend.drawn ≤ s.backend.drawn + [q].count .allocate := by
  rw [hs, ht]
  exact ⟨rfl, h, Nat.le_add_right ..⟩

/-- A call is answered alike, and leaves the stores in agreement. There is one case for each
request. What is said of the draws bounds them by the number of requests for one. -/
theorem serve {q : Request} (hfits : ∀ r, q = .put r → Row.Layout.fits r = true)
    (hlt : q = .allocate → s.backend.drawn + 1 < UInt64.size - 1) :
    (s.serve moment q).1 = (t.serve moment q).1 ∧
      (s.serve moment q).2.Agrees (t.serve moment q).2 ∧
      (s.serve moment q).2.backend.drawn ≤ s.backend.drawn + [q].count .allocate := by
  have hrows := h.backend.rows
  cases q with
  | allocate =>
    have hreach := h.reach_eq moment .allocate none
    obtain ⟨hanswer, hagrees, hdrawn⟩ := h.backend.allocate (hlt rfl)
    simp only [Store.serve, Store.allocate, ← hreach]
    cases s.reach moment .allocate none with
    | error fault => exact ⟨rfl, h, Nat.le_add_right ..⟩
    | ok _ => exact ⟨congrArg _ hanswer, ⟨h.outages, hagrees⟩, Nat.le_of_eq hdrawn⟩
  | put r =>
    have hreach := h.reach_eq moment .put (some r.id)
    obtain ⟨b, c, hb, hc, hagrees⟩ := h.backend.put (hfits r rfl)
    have hdrawn : b.drawn = s.backend.drawn := (h.backend.left.puts hb).drawn
    simp only [Store.serve, Store.put, ← hreach, hb, hc]
    cases s.reach moment .put (some r.id) with
    | error fault => exact ⟨rfl, h, Nat.le_add_right ..⟩
    | ok _ => exact ⟨rfl, ⟨h.outages, hagrees⟩, Nat.le_of_eq hdrawn⟩
  | remove id =>
    have hreach := h.reach_eq moment .remove (some id)
    obtain ⟨existed, b, c, hb, hc, hagrees⟩ := h.backend.remove id
    have hdrawn : b.drawn = s.backend.drawn := by
      obtain ⟨b', hb', hremoves⟩ := h.backend.left.exists_remove id
      cases hb.symm.trans hb'
      exact hremoves.drawn
    simp only [Store.serve, Store.remove, ← hreach, hb, hc]
    cases s.reach moment .remove (some id) with
    | error fault => exact ⟨rfl, h, Nat.le_add_right ..⟩
    | ok _ => exact ⟨rfl, ⟨h.outages, hagrees⟩, Nat.le_of_eq hdrawn⟩
  | get id =>
    refine h.serve_of_eq moment rfl ?_
    simp only [Store.serve, Store.get, h.reach_eq, h.backend.left.get_eq, h.backend.right.get_eq,
      hrows]
  | rowsAt a =>
    refine h.serve_of_eq moment rfl ?_
    simp only [Store.serve, Store.rowsAt, h.reach_eq, h.backend.left.rowsAt_eq,
      h.backend.right.rowsAt_eq, hrows]
  | rowsIn parent =>
    refine h.serve_of_eq moment rfl ?_
    simp only [Store.serve, Store.rowsIn, h.reach_eq, h.backend.left.rowsIn_eq,
      h.backend.right.rowsIn_eq, hrows]
  | scan =>
    refine h.serve_of_eq moment rfl ?_
    simp only [Store.serve, Store.scan, h.reach_eq, h.backend.left.scan_eq, h.backend.right.scan_eq,
      hrows]
  | size =>
    refine h.serve_of_eq moment rfl ?_
    simp only [Store.serve, Store.size, h.reach_eq, h.backend.left.size_eq, h.backend.right.size_eq,
      hrows]
  | isEmpty =>
    refine h.serve_of_eq moment rfl ?_
    simp only [Store.serve, Store.isEmpty, Store.size, h.reach_eq, h.backend.left.size_eq,
      h.backend.right.size_eq, hrows]
  | modificationCount =>
    refine h.serve_of_eq moment rfl ?_
    simp only [Store.serve, Store.modificationCount, Store.writes, h.backend.writes]

/-- Lists of calls are answered alike. The induction is on the list, with the moment that goes on,
since outages are planned by it. -/
theorem answers {requests : List Request}
    (hfits : ∀ r, .put r ∈ requests → Row.Layout.fits r = true)
    (hlt : s.backend.drawn + requests.count .allocate < UInt64.size - 1) :
    s.answers moment requests = t.answers moment requests := by
  induction requests generalizing s t moment with
  | nil => rfl
  | cons q qs ih =>
    have hcount : (q :: qs).count .allocate = [q].count .allocate + qs.count .allocate := by
      rw [← List.count_append, List.singleton_append]
    have hroom : q = .allocate → s.backend.drawn + 1 < UInt64.size - 1 := by
      rintro rfl
      rw [List.count_cons_self] at hlt
      omega
    obtain ⟨hanswer, hagrees, hdrawn⟩ :=
      h.serve moment (fun r hr => hfits r (hr ▸ List.mem_cons_self ..)) hroom
    rw [Store.answers, Store.answers, hanswer]
    refine congrArg _ (ih hagrees (moment + 1) (fun r hr => ?_) (by omega))
    exact hfits r (List.mem_cons_of_mem _ hr)

end Agrees

/-- **Both kinds of stores answer alike.** Two stores under the same plan of outages, one that keeps
rows in memory and one that keeps bytes under indexes, both empty at first, answer every list of
calls alike as long as ids remain. The texts of rows are shorter than 2^64 bytes, as texts in a
memory are. -/
theorem answers_memory_eq_indexed (outages : Outages) (moment : Nat) (requests : List Request)
    (hfits : ∀ r, .put r ∈ requests → Row.Layout.fits r = true)
    (hlt : requests.count .allocate < UInt64.size - 1) :
    answers ⟨.memory Memory.empty, outages⟩ moment requests =
      answers ⟨.indexed Indexed.empty, outages⟩ moment requests := by
  have hagrees : (⟨.memory Memory.empty, outages⟩ : Store).Agrees ⟨.indexed Indexed.empty, outages⟩ :=
    ⟨rfl, Backend.sound_memory, Backend.sound_indexed, rfl, rfl, rfl⟩
  refine hagrees.answers moment hfits ?_
  rwa [show (Backend.memory Memory.empty).drawn = 0 from rfl, Nat.zero_add]

/-- A row that is put, moved to an address of the same number in a wider space, and taken out. An
index of addresses that left the width of a space out would find the row under both. -/
theorem answers_of_moved_row :
    let r := Row.fresh ⟨1, by decide⟩ .label ⟨⟨2, 16⟩, 64⟩ "start" .global .userDefined
    let requests := [.allocate, .put r, .put { r with address := ⟨⟨2, 32⟩, 64⟩ },
      .rowsAt ⟨⟨2, 16⟩, 64⟩, .rowsAt ⟨⟨2, 32⟩, 64⟩, .remove r.id, .isEmpty]
    (∀ x, .put x ∈ requests → Row.Layout.fits x = true) ∧
      requests.count .allocate < UInt64.size - 1 ∧
      answers ⟨.memory Memory.empty, Outages.never⟩ 0 requests =
        answers ⟨.indexed Indexed.empty, Outages.never⟩ 0 requests := by
  intro r requests
  have hfits : ∀ x, .put x ∈ requests → Row.Layout.fits x = true := by
    intro x hx
    simp only [requests, List.mem_cons, Request.put.injEq, reduceCtorEq, false_or, or_false,
      List.not_mem_nil] at hx
    rcases hx with rfl | rfl <;> decide
  exact ⟨hfits, by decide, answers_memory_eq_indexed _ _ _ hfits (by decide)⟩

end SymbolTable.Store
