import SymbolTable.Proofs.Store.Agreement

/-!
# Closing a store and opening it again

Rows kept as bytes outlive the store: what is left of it when it is closed and opened again is
everything but the count of its writes (`Indexed.reopen`), and no other answer depends on that count
(`Indexed.serve_reopen`). A `Turn` is a call or a reopening, `Store.exchanges` are the calls of a
list of turns with their answers, and `Store.after` is the store that is left. The next fresh id is
kept as well (`Store.nextId?`), and a call either draws it and moves on to a greater one or leaves
it as it is (`Indexed.exists_serve`). The main statement is `Store.reopening_is_transparent`.
-/

namespace SymbolTable.Store

/-- What happens to a store whose rows outlive it. -/
inductive Turn where
  | call (q : Request)
  /-- The store is closed and opened again. -/
  | reopen
  deriving DecidableEq

/-- The calls among turns, with what is answered to them. -/
def exchanges : Store → (moment : Nat) → List Turn → List (Request × Except StoreFault Answer)
  | _, _, [] => []
  | s, moment, .call q :: turns =>
    (q, (s.serve moment q).1) :: exchanges (s.serve moment q).2 (moment + 1) turns
  | s, moment, .reopen :: turns => exchanges s.reopen moment turns

/-- The store that is left after turns. -/
def after : Store → (moment : Nat) → List Turn → Store
  | s, _, [] => s
  | s, moment, .call q :: turns => after (s.serve moment q).2 (moment + 1) turns
  | s, moment, .reopen :: turns => after s.reopen moment turns

/-- The id that a call draws, if it does. -/
def drawnId? : Request × Except StoreFault Answer → Option SymbolId
  | (.allocate, .ok (.id id)) => some id
  | _ => none

/-- The next fresh id, as far as it outlives the store. -/
def nextId? (s : Store) : Option UInt64 :=
  match s.backend with
  | .memory _ => none
  | .indexed d => some d.nextId

/-! ## Stores that differ in the count of their writes -/

namespace Indexed

variable (d : Indexed)

/-- To put a row into a store that was opened again comes to the same as to put it there before, but
for the count of writes, which begins anew. -/
theorem put_reopen (r : Row) :
    d.reopen.put r = (fun d' => { d' with writes := 1 }) <$> d.put r := by
  have hget : d.reopen.get r.id = d.get r.id := rfl
  unfold put
  rw [hget]
  cases Row.Layout.fits r with
  | false => rfl
  | true =>
    cases d.get r.id with
    | error fault => rfl
    | ok old => cases old <;> rfl

/-- To take a row out after opening again answers the same as before and leaves the same rows. The
count of writes begins anew, so afterwards it tells whether there was a row. -/
theorem remove_reopen (id : SymbolId) :
    d.reopen.remove id = (fun x => (x.1, { x.2 with writes := x.1.toNat })) <$> d.remove id := by
  have hget : d.reopen.get id = d.get id := rfl
  unfold remove
  rw [hget]
  cases d.get id with
  | error fault => rfl
  | ok old => cases old <;> rfl

/-- Drawing does not depend on how many writes there were. The count begins anew when a store is
opened, and the next id is read from the disk. -/
theorem allocate_reopen : d.reopen.allocate = (d.allocate.1, d.allocate.2.reopen) := by
  have hnext : d.reopen.nextId = d.nextId := rfl
  unfold allocate
  rw [hnext]
  cases SymbolId.ofRaw? d.nextId with
  | none => rfl
  | some id =>
    by_cases hlast : d.nextId = 0xffffffffffffffff
    · simp [hlast]
    · simp [hlast, reopen]

/-- The cells that are read are those on the disk, so nothing that is read depends on whether the
store was opened again. -/
theorem readEach_reopen (ks : List UInt64) : d.reopen.readEach ks = d.readEach ks := by
  induction ks with
  | nil => rfl
  | cons k ks ih =>
    rw [readEach, readEach, ih]
    rfl

/-- A call of a store that was reopened is answered as before, and leaves what is the same as
without once both are reopened. -/
theorem serve_reopen (moment : Nat) (q : Request) :
    (q ≠ .modificationCount → ((ofBackend (.indexed d.reopen)).serve moment q).1 =
        ((ofBackend (.indexed d)).serve moment q).1) ∧
      ((ofBackend (.indexed d.reopen)).serve moment q).2.reopen =
        ((ofBackend (.indexed d)).serve moment q).2.reopen := by
  cases q with
  | put r =>
    simp only [serve, Store.put, reach, ofBackend, Outages.never, Backend.put, put_reopen]
    cases d.put r with
    | error fault => exact ⟨fun _ => rfl, rfl⟩
    | ok d' => exact ⟨fun _ => rfl, rfl⟩
  | remove id =>
    simp only [serve, Store.remove, reach, ofBackend, Outages.never, Backend.remove, remove_reopen]
    cases d.remove id with
    | error fault => exact ⟨fun _ => rfl, rfl⟩
    | ok x => exact ⟨fun _ => rfl, rfl⟩
  | allocate =>
    have hdraw : (Backend.indexed d.reopen).allocate =
        ((Backend.indexed d).allocate.1, (Backend.indexed d).allocate.2.reopen) := by
      rw [Backend.allocate, allocate_reopen]
      rfl
    have hleft : (ofBackend (Backend.indexed d.reopen).allocate.2).reopen =
        (ofBackend (Backend.indexed d).allocate.2).reopen := by
      rw [hdraw]
      rfl
    exact ⟨fun _ => congrArg (Answer.id <$> ·.1) hdraw, hleft⟩
  | rowsAt a =>
    simp only [serve, Store.rowsAt, reach, ofBackend, Outages.never, Backend.rowsAt, Indexed.rowsAt,
      load, readEach_reopen]
    exact ⟨fun _ => rfl, rfl⟩
  | rowsIn parent =>
    simp only [serve, Store.rowsIn, reach, ofBackend, Outages.never, Backend.rowsIn, Indexed.rowsIn,
      load, readEach_reopen]
    exact ⟨fun _ => rfl, rfl⟩
  | modificationCount => exact ⟨fun hq => absurd rfl hq, rfl⟩
  | get | scan | size | isEmpty => exact ⟨fun _ => rfl, rfl⟩

/-! ## The next id -/

/-- A row that is put draws no id. Only a draw moves the next id on. It does not matter whether a
row was there before. -/
theorem nextId_of_put {d d' : Indexed} {r : Row} (h : d.put r = .ok d') : d'.nextId = d.nextId := by
  unfold put at h
  cases hfits : Row.Layout.fits r with
  | false => simp [hfits, bind, Except.bind] at h
  | true =>
    cases hget : d.get r.id with
    | error fault => simp [hfits, hget, bind, Except.bind] at h
    | ok old =>
      simp only [hfits, hget, bind, Except.bind, pure, Except.pure] at h
      cases h
      exact nextId_unindexOld ..

/-- A row that is taken out gives no id back. So the next id never goes down, which is what lasts
over reopenings. -/
theorem nextId_of_remove {d : Indexed} {id : SymbolId} {x : Bool × Indexed}
    (h : d.remove id = .ok x) : x.2.nextId = d.nextId := by
  unfold remove at h
  cases hget : d.get id with
  | error fault => simp [hget, bind, Except.bind] at h
  | ok old =>
    rw [hget] at h
    cases old with
    | none =>
      cases h
      rfl
    | some old =>
      cases h
      rfl

/-- No id is left. -/
def Drained : Prop :=
  d.nextId = 0 ∨ d.nextId = 0xffffffffffffffff

variable {d} in
/-- Whether all ids are drawn depends on the next one alone. So this does not change with the
rows. -/
theorem Drained.of_nextId_eq (h : d.Drained) {d' : Indexed} (hnext : d'.nextId = d.nextId) :
    d'.Drained := by
  rw [Drained, hnext]
  exact h

/-- Drawing answers the next id and moves on to a greater one, or no id is left and nothing changes.
The store is drained in the second case: its next id is the last word, which is never given out, or
none. -/
theorem allocate_cases :
    (∃ id, d.allocate.1 = some id ∧ id.val = d.nextId ∧ d.nextId < d.allocate.2.nextId) ∨
      d.Drained ∧ d.allocate = (none, d) := by
  by_cases h0 : d.nextId = 0
  · refine .inr ⟨.inl h0, ?_⟩
    rw [allocate, h0]
    rfl
  · by_cases hlt : d.nextId.toNat < UInt64.size - 1
    · refine .inl ⟨⟨d.nextId, h0⟩, congrArg Prod.fst (allocate_of_lt h0 hlt), rfl, ?_⟩
      rw [allocate_of_lt h0 hlt, UInt64.lt_iff_toNat_lt, UInt64.toNat_add]
      show _ < (d.nextId.toNat + 1) % UInt64.size
      rw [Nat.mod_eq_of_lt (by omega)]
      exact Nat.lt_succ_self _
    · have hword : d.nextId.toNat < UInt64.size := d.nextId.toNat_lt
      have hlast : d.nextId = 0xffffffffffffffff :=
        UInt64.toNat_inj.1 (by show _ = UInt64.size - 1; omega)
      exact .inr ⟨.inr hlast, allocate_last hlt⟩

/-- A call draws the next id and moves on to a greater one, or it leaves the next id as it is; then
it is no draw, or no id is left. -/
theorem exists_serve (moment : Nat) (q : Request) :
    ∃ a d', (ofBackend (.indexed d)).serve moment q = (a, ofBackend (.indexed d')) ∧
      ((∃ id, drawnId? (q, a) = some id ∧ id.val = d.nextId ∧ d.nextId < d'.nextId) ∨
        drawnId? (q, a) = none ∧ d'.nextId = d.nextId ∧
          (q = .allocate → d.Drained ∧ a = .error .exhausted)) := by
  cases q with
  | put r =>
    simp only [serve, Store.put, reach, ofBackend, Outages.never, Backend.put]
    cases hput : d.put r with
    | error fault => exact ⟨_, d, rfl, .inr ⟨rfl, rfl, by rintro ⟨⟩⟩⟩
    | ok d' => exact ⟨_, d', rfl, .inr ⟨rfl, nextId_of_put hput, by rintro ⟨⟩⟩⟩
  | remove id =>
    simp only [serve, Store.remove, reach, ofBackend, Outages.never, Backend.remove]
    cases hremove : d.remove id with
    | error fault => exact ⟨_, d, rfl, .inr ⟨rfl, rfl, by rintro ⟨⟩⟩⟩
    | ok x => exact ⟨_, x.2, rfl, .inr ⟨rfl, nextId_of_remove hremove, by rintro ⟨⟩⟩⟩
  | allocate =>
    refine ⟨Answer.id <$> d.allocate.1.elim (.error .exhausted) .ok, d.allocate.2, rfl, ?_⟩
    rcases d.allocate_cases with ⟨id, hid, hval, hlt⟩ | ⟨hdrained, hnone⟩
    · rw [hid]
      exact .inl ⟨id, rfl, hval, hlt⟩
    · rw [hnone]
      exact .inr ⟨rfl, rfl, fun _ => ⟨hdrained, rfl⟩⟩
  | get | rowsAt | rowsIn | scan | size | isEmpty | modificationCount =>
    exact ⟨_, d, rfl, .inr ⟨rfl, rfl, by rintro ⟨⟩⟩⟩

/-- Where no id is left, a call leaves it at that, and a draw is told so. Every other call may be
made of such a store, and answers as it would before. -/
theorem Drained.exists_serve {d : Indexed} (h : d.Drained) (moment : Nat) (q : Request) :
    ∃ a d', (ofBackend (.indexed d)).serve moment q = (a, ofBackend (.indexed d')) ∧
      d'.nextId = d.nextId ∧ (q = .allocate → a = .error .exhausted) := by
  obtain ⟨a, d', hserve, ⟨id, -, hid, hlt⟩ | ⟨-, hnext, hall⟩⟩ := d.exists_serve moment q
  · -- the last word has no greater one, and zero is no id
    rcases h with h0 | hlast
    · exact absurd (hid.trans h0) id.ne_zero
    · rw [hlast, UInt64.lt_iff_toNat_lt] at hlt
      have hword : d'.nextId.toNat < UInt64.size := d'.nextId.toNat_lt
      exact absurd hlt (Nat.not_lt.2 (Nat.le_sub_one_of_lt hword))
  · exact ⟨a, d', hserve, hnext, fun hq => (hall hq).2⟩

/-- A draw that is told so finds no id left. An outage is answered otherwise, so it is not taken for
this. -/
theorem drained_of_serve {moment : Nat}
    (h : ((ofBackend (.indexed d)).serve moment .allocate).1 = .error .exhausted) : d.Drained := by
  obtain ⟨a, d', hserve, ⟨id, hdrawn, -⟩ | ⟨-, -, hall⟩⟩ := d.exists_serve moment .allocate
  · rw [hserve] at h
    cases h
    cases hdrawn
  · exact (hall rfl).1

end Indexed

/-! ## Turns -/

section
variable {d e : Indexed} {moment : Nat} {turns : List Turn}

/-- Stores of bytes that are the same once reopened answer turns alike, whichever reopenings are
left out for one of them. -/
theorem exchanges_of_reopen_eq (h : d.reopen = e.reopen) :
    ((ofBackend (.indexed d)).exchanges moment turns).filter (·.1 ≠ .modificationCount) =
      ((ofBackend (.indexed e)).exchanges moment (turns.filter (· ≠ .reopen))).filter
        (·.1 ≠ .modificationCount) := by
  induction turns generalizing d e moment with
  | nil => rfl
  | cons turn turns ih =>
    cases turn with
    | reopen =>
      have hreopened : d.reopen.reopen = e.reopen := h
      exact ih hreopened
    | call q =>
      obtain ⟨a, d', hd, -⟩ := d.exists_serve moment q
      obtain ⟨a', e', he, -⟩ := e.exists_serve moment q
      have hd' := d.serve_reopen moment q
      have he' := e.serve_reopen moment q
      rw [h, hd] at hd'
      rw [he] at he'
      have hleft : (ofBackend (.indexed d')).reopen = (ofBackend (.indexed e')).reopen :=
        hd'.2.symm.trans he'.2
      have hsame : d'.reopen = e'.reopen := by
        injection hleft with hbackend
        injection hbackend
      have htail := @ih d' e' (moment + 1) hsame
      rw [List.filter_cons_of_pos (a := Turn.call q) (by simp), exchanges, exchanges, hd, he]
      by_cases hq : q = .modificationCount
      · simpa [List.filter_cons, hq] using htail
      · have ha : a = a' := (hd'.1 hq).symm.trans (he'.1 hq)
        simpa [List.filter_cons, hq, ha] using htail

/-- The ids that turns draw start no lower than the next one, and increase. Each draw that answers
moves the next id on, and no other turn moves it, reopenings included. The induction is on the
turns. -/
theorem pairwise_drawn :
    (∀ id ∈ ((ofBackend (.indexed d)).exchanges moment turns).filterMap drawnId?, d.nextId ≤ id.val) ∧
      (((ofBackend (.indexed d)).exchanges moment turns).filterMap drawnId?).Pairwise
        (·.val < ·.val) := by
  induction turns generalizing d moment with
  | nil => exact ⟨nofun, .nil⟩
  | cons turn turns ih =>
    cases turn with
    | reopen => exact ih (d := d.reopen)
    | call q =>
      obtain ⟨a, d', hserve, hcases⟩ := d.exists_serve moment q
      obtain ⟨hle, hpairwise⟩ := @ih d' (moment + 1)
      rw [exchanges, hserve]
      rcases hcases with ⟨id, hdrawn, hid, hlt⟩ | ⟨hdrawn, hnext, -⟩
      · rw [List.filterMap_cons_some hdrawn]
        refine ⟨fun x hx => ?_, List.pairwise_cons.2 ⟨fun x hx => ?_, hpairwise⟩⟩
        · rcases List.mem_cons.1 hx with rfl | hx
          · exact UInt64.le_of_eq hid.symm
          · exact UInt64.le_trans (UInt64.le_of_lt hlt) (hle x hx)
        · rw [hid]
          exact UInt64.lt_of_lt_of_le hlt (hle x hx)
      · rw [List.filterMap_cons_none hdrawn, ← hnext]
        exact ⟨hle, hpairwise⟩

/-- Where no id is left, every draw is told so, and the next id stays as it is. Nothing brings an id
back, so it stays like that for all turns, reopenings among them. The induction is on the turns. -/
theorem exhausted_of_drained (h : d.Drained) :
    (∀ x ∈ (ofBackend (.indexed d)).exchanges moment turns, x.1 = .allocate → x.2 = .error .exhausted) ∧
      ((ofBackend (.indexed d)).after moment turns).nextId? = some d.nextId := by
  induction turns generalizing d moment with
  | nil => exact ⟨fun _ hx => absurd hx List.not_mem_nil, rfl⟩
  | cons turn turns ih =>
    cases turn with
    | reopen => exact ih (d := d.reopen) h
    | call q =>
      obtain ⟨a, d', hserve, hnext, hall⟩ := h.exists_serve moment q
      obtain ⟨hexchanges, hafter⟩ := @ih d' (moment + 1) (h.of_nextId_eq hnext)
      rw [exchanges, after, hserve]
      refine ⟨fun x hx => ?_, hafter.trans (congrArg some hnext)⟩
      rcases List.mem_cons.1 hx with rfl | hx
      · exact hall
      · exact hexchanges x hx

/-- A draw that is told that no id is left is followed by none that gets one. After the turn that
was told so the store is drained, and from there on it is `exhausted_of_drained`. The induction is
on the turns. -/
theorem pairwise_exhausted :
    ((ofBackend (.indexed d)).exchanges moment turns).Pairwise fun x y =>
      x = (.allocate, .error .exhausted) → y.1 = .allocate → y.2 = .error .exhausted := by
  induction turns generalizing d moment with
  | nil => exact .nil
  | cons turn turns ih =>
    cases turn with
    | reopen => exact ih (d := d.reopen)
    | call q =>
      obtain ⟨a, d', hserve, hcases⟩ := d.exists_serve moment q
      rw [exchanges, hserve]
      refine List.pairwise_cons.2 ⟨fun y hy hx => ?_, ih⟩
      cases hx
      rcases hcases with ⟨id, hdrawn, -⟩ | ⟨-, hnext, hall⟩
      · cases hdrawn
      · exact (exhausted_of_drained ((hall rfl).1.of_nextId_eq hnext)).1 y hy

/-- Turns leave a store of bytes, from which later turns go on. A theorem about turns from some
store on can be used in the middle of a run that way. The moment moves on with each call. The
induction is on the turns. -/
theorem exists_after (d : Indexed) (moment : Nat) (turns later : List Turn) :
    ∃ d' moment', (ofBackend (.indexed d)).after moment turns = ofBackend (.indexed d') ∧
      (ofBackend (.indexed d)).after moment (turns ++ later) =
        (ofBackend (.indexed d')).after moment' later := by
  induction turns generalizing d moment with
  | nil => exact ⟨d, moment, rfl, rfl⟩
  | cons turn turns ih =>
    cases turn with
    | reopen => exact ih d.reopen moment
    | call q =>
      obtain ⟨a, d', hserve, -⟩ := d.exists_serve moment q
      rw [List.cons_append, after, after, hserve]
      exact ih d' (moment + 1)

end

/-- **Reopening is transparent, and ids are never reused.** Take a store of bytes, whatever it
holds, and any list of calls with any reopenings among them. All answers but the count of writes are
those that are given without the reopenings. The ids that are drawn increase from one to the next.
Once a draw has been told that no id is left, so is every later one; and where a draw would be told
so, the next id that is kept stays as it is for ever after. -/
theorem reopening_is_transparent (d : Indexed) (moment : Nat) (turns : List Turn) :
    let s := ofBackend (.indexed d)
    (s.exchanges moment turns).filter (·.1 ≠ .modificationCount) =
        (s.exchanges moment (turns.filter (· ≠ .reopen))).filter (·.1 ≠ .modificationCount) ∧
      ((s.exchanges moment turns).filterMap drawnId?).Pairwise (·.val < ·.val) ∧
      ((s.exchanges moment turns).Pairwise fun x y =>
        x = (.allocate, .error .exhausted) → y.1 = .allocate → y.2 = .error .exhausted) ∧
      ∀ earlier later, turns = earlier ++ later → ∀ now,
        ((s.after moment earlier).serve now .allocate).1 = .error .exhausted →
          (s.after moment turns).nextId? = (s.after moment earlier).nextId? := by
  intro s
  refine ⟨exchanges_of_reopen_eq rfl, pairwise_drawn.2, pairwise_exhausted, ?_⟩
  rintro earlier later rfl now hexhausted
  obtain ⟨d', moment', hearlier, hlater⟩ := exists_after d moment earlier later
  rw [hearlier] at hexhausted ⊢
  rw [hlater]
  exact (exhausted_of_drained (d'.drained_of_serve hexhausted)).2

/-- The last id is drawn before a store is reopened, and none after. The last word is not given out,
so the word before it is the last id. -/
theorem reopening_of_last_id :
    let s := ofBackend (.indexed { Indexed.empty with nextId := 0xfffffffffffffffe })
    let earlier : List Turn := [.call .allocate, .reopen]
    let later : List Turn := [.call .allocate, .reopen, .call .allocate]
    s.exchanges 0 (earlier ++ later) =
        [(.allocate, .ok (.id ⟨0xfffffffffffffffe, by decide⟩)), (.allocate, .error .exhausted),
          (.allocate, .error .exhausted)] ∧
      ((s.after 0 earlier).serve 1 .allocate).1 = .error .exhausted ∧
      (s.after 0 (earlier ++ later)).nextId? = (s.after 0 earlier).nextId? := by
  intro s earlier later
  have hexhausted : ((s.after 0 earlier).serve 1 .allocate).1 = .error .exhausted := by decide
  exact ⟨by decide, hexhausted,
    (reopening_is_transparent _ 0 _).2.2.2 earlier later rfl 1 hexhausted⟩

end SymbolTable.Store
