import Mathlib.Data.List.ReduceOption
import SymbolTable.Proofs.Store.Reopening

/-!
# Drawing ids from memory

The allocator of a store in memory draws one word after the other, modulo 2^64
(`Allocator.draws_eq`). So the word zero is drawn once in 2^64 draws, which find no id then, and the
draws after it start over from one. Two draws get the same id exactly if a multiple of 2^64 draws
lies between them (`Allocator.nodup_draws_iff`), and what is drawn is in order exactly as long as
nobody goes on after a draw that found none (`Allocator.inOrder_draws_iff`). A call of the store
draws at most once from its allocator (`exists_draws_of_memory`). The main statement is
`Allocator.draws_wrap_around`.
-/

namespace SymbolTable

namespace Allocator

/-- What a number of draws answer, one after the other. -/
def draws : Allocator → Nat → List (Option SymbolId)
  | _, 0 => []
  | a, n + 1 => a.draw.1 :: draws a.draw.2 n

/-- Ids increase from each draw to the next, and a draw that finds none is followed by none that
does. -/
structure InOrder (answers : List (Option SymbolId)) : Prop where
  increasing : answers.reduceOption.Pairwise (·.val < ·.val)
  final : answers.Pairwise fun x y => x = none → y = none

/-! ## The words that are drawn -/

/-- The draw that looks at a position. -/
def word (position : Nat) : Option SymbolId :=
  SymbolId.ofRaw? (UInt64.ofNat position)

/-- A draw finds no id exactly at the multiples of 2^64. There the word is zero, which is no id. -/
theorem word_eq_none_iff {position : Nat} : word position = none ↔ position % UInt64.size = 0 := by
  have hzero : UInt64.ofNat position = 0 ↔ position % UInt64.size = 0 := by
    rw [← UInt64.toNat_inj, UInt64.toNat_ofNat']
    rfl
  rw [word, SymbolId.ofRaw?, ← hzero]
  split <;> simp_all

/-- The id that is drawn is the position at which the draw looks, modulo 2^64. -/
theorem toNat_of_word {position : Nat} {id : SymbolId} (h : word position = some id) :
    id.val.toNat = position % UInt64.size := by
  rw [← SymbolId.ofRaw?_eq_some_iff.1 h]
  exact UInt64.toNat_ofNat ..

/-- Words come back after 2^64 draws. -/
theorem word_add_size (position : Nat) : word (position + UInt64.size) = word position := by
  rw [word, word, UInt64.ofNat_add, show UInt64.ofNat (UInt64.size) = 0 from rfl, UInt64.add_zero]

variable (a : Allocator)

/-- Draws look at one position after the other, from the one at which the allocator is. The
induction is on how many there are, for an allocator at any position. -/
theorem draws_eq (n : Nat) : a.draws n = (List.range n).map fun i => word (a.position + i) := by
  induction n generalizing a with
  | zero => rfl
  | succ n ih =>
    rw [draws, ih, List.range_succ_eq_map, List.map_cons, List.map_map]
    refine congrArg _ (List.map_congr_left fun i _ => ?_)
    exact congrArg word (Nat.succ_add_eq_add_succ ..)

/-- A relation holds from each draw to every later one if it does for the words they look at. The
draws look at one position after the other, so pairs of draws are pairs of positions. -/
theorem pairwise_draws {r : Option SymbolId → Option SymbolId → Prop} {n : Nat} :
    (a.draws n).Pairwise r ↔
      ∀ j < n, ∀ i < j, r (word (a.position + i)) (word (a.position + j)) := by
  rw [draws_eq, List.pairwise_map, List.pairwise_iff_getElem]
  simp only [List.length_range, List.getElem_range]
  constructor
  · intro h j hj i hij
    exact h i j (Nat.lt_trans hij hj) hj hij
  · intro h i j hi hj hij
    exact h j hj i hij

/-- A relation holds among the ids that are drawn, those that find none left out, exactly if it
holds from each to every later one. -/
theorem pairwise_reduceOption_draws {r : SymbolId → SymbolId → Prop} {n : Nat} :
    (a.draws n).reduceOption.Pairwise r ↔ ∀ j < n, ∀ i < j,
      ∀ x, word (a.position + i) = some x → ∀ y, word (a.position + j) = some y → r x y := by
  rw [List.reduceOption, List.pairwise_filterMap]
  exact a.pairwise_draws

/-! ## How long draws are in order -/

section
variable {a} (hpos : a.position ≠ 0) (hlt : a.position < UInt64.size) {n : Nat}

include hpos hlt

/-- No id is drawn twice exactly if the draws are no more than there are words. Positions that are
the same modulo the number of words draw the same id, and two such positions are among the draws as
soon as there are more of them than words. -/
theorem nodup_draws_iff : (a.draws n).reduceOption.Nodup ↔ n ≤ UInt64.size := by
  rw [List.Nodup, pairwise_reduceOption_draws]
  constructor
  · intro h
    by_contra hn
    have hfirst : word a.position ≠ none := by
      rw [Ne, word_eq_none_iff]
      unfold UInt64.size at *
      omega
    obtain ⟨id, hid⟩ := Option.ne_none_iff_exists'.1 hfirst
    exact h (UInt64.size) (Nat.not_le.1 hn) 0 (Nat.two_pow_pos 64) id hid id
      ((word_add_size _).trans hid) rfl
  · rintro hn j hj i hij x hx y hy rfl
    have hmod := (toNat_of_word hx).symm.trans (toNat_of_word hy)
    unfold UInt64.size at *
    omega

/-- Draws are in order exactly if none follows the first that finds no id. From a start, the word
after the last one is the first that finds no id, and the draw after that would be out of order. -/
theorem inOrder_draws_iff : InOrder (a.draws n) ↔ n ≤ UInt64.size - a.position + 1 := by
  constructor
  · intro h
    by_contra hn
    have hfinal := a.pairwise_draws.1 h.final (UInt64.size - a.position + 1) (Nat.not_le.1 hn)
      (UInt64.size - a.position) (Nat.lt_succ_self _)
    rw [word_eq_none_iff, word_eq_none_iff] at hfinal
    unfold UInt64.size at *
    omega
  · intro hn
    refine ⟨a.pairwise_reduceOption_draws.2 fun j hj i hij x hx y hy => ?_,
      a.pairwise_draws.2 fun j hj i hij hnone => ?_⟩
    · have hne : word (a.position + j) ≠ none := by simp [hy]
      rw [Ne, word_eq_none_iff] at hne
      rw [UInt64.lt_iff_toNat_lt, toNat_of_word hx, toNat_of_word hy]
      unfold UInt64.size at *
      omega
    · rw [word_eq_none_iff] at hnone
      unfold UInt64.size at *
      omega

end

end Allocator

/-! ## Draws of a store in memory -/

namespace Store

/-- A call of a store in memory draws from its allocator, or it draws nothing; then it is no draw,
or an outage hits it. -/
theorem exists_serve_of_memory (m : Memory) (outages : Outages) (moment : Nat) (q : Request) :
    ∃ a m', (⟨.memory m, outages⟩ : Store).serve moment q = (a, ⟨.memory m', outages⟩) ∧
      (q = .allocate ∧ drawnId? (q, a) = m.allocator.draw.1 ∧ m'.allocator = m.allocator.draw.2 ∨
        drawnId? (q, a) = none ∧ m'.allocator = m.allocator ∧
          (q = .allocate → outages ≠ Outages.never)) := by
  cases q with
  | allocate =>
    simp only [serve, Store.allocate]
    cases hreach : (⟨.memory m, outages⟩ : Store).reach moment .allocate none with
    | error fault =>
      refine ⟨_, m, rfl, .inr ⟨rfl, rfl, fun _ hnever => ?_⟩⟩
      rw [hnever] at hreach
      cases hreach
    | ok _ =>
      have hdrawn : drawnId? (.allocate,
          Answer.id <$> m.allocator.draw.1.elim (.error .exhausted) .ok) = m.allocator.draw.1 := by
        cases m.allocator.draw.1 <;> rfl
      exact ⟨_, m.allocate.2, rfl, .inl ⟨trivial, hdrawn, rfl⟩⟩
  | put r =>
    simp only [serve, Store.put]
    cases (⟨.memory m, outages⟩ : Store).reach moment .put (some r.id) with
    | error fault => exact ⟨_, m, rfl, .inr ⟨rfl, rfl, by rintro ⟨⟩⟩⟩
    | ok _ => exact ⟨_, m.put r, rfl, .inr ⟨rfl, rfl, by rintro ⟨⟩⟩⟩
  | remove id =>
    simp only [serve, Store.remove]
    cases (⟨.memory m, outages⟩ : Store).reach moment .remove (some id) with
    | error fault => exact ⟨_, m, rfl, .inr ⟨rfl, rfl, by rintro ⟨⟩⟩⟩
    | ok _ => exact ⟨_, (m.remove id).2, rfl, .inr ⟨rfl, m.allocator_remove id, by rintro ⟨⟩⟩⟩
  | get | rowsAt | rowsIn | scan | size | isEmpty | modificationCount =>
    exact ⟨_, m, rfl, .inr ⟨rfl, rfl, by rintro ⟨⟩⟩⟩

/-- Calls of a store in memory draw what as many draws of its allocator do, or fewer where an outage
hits. -/
theorem exists_draws_of_memory (m : Memory) (outages : Outages) (moment : Nat)
    (requests : List Request) :
    ∃ n ≤ requests.count .allocate, (outages = Outages.never → n = requests.count .allocate) ∧
      ((⟨.memory m, outages⟩ : Store).exchanges moment (requests.map .call)).filterMap drawnId? =
        (m.allocator.draws n).reduceOption := by
  induction requests generalizing m moment with
  | nil => exact ⟨0, Nat.le_refl _, fun _ => rfl, rfl⟩
  | cons q qs ih =>
    obtain ⟨a, m', hserve, hcases⟩ := exists_serve_of_memory m outages moment q
    obtain ⟨n, hn, hall, heq⟩ := ih m' (moment + 1)
    rw [List.map_cons, exchanges, hserve]
    rcases hcases with ⟨rfl, hdrawn, hallocator⟩ | ⟨hdrawn, hallocator, hhit⟩
    · rw [List.count_cons_self, List.filterMap_cons, hdrawn, heq, hallocator]
      refine ⟨n + 1, Nat.succ_le_succ hn, fun hnever => congrArg (· + 1) (hall hnever), ?_⟩
      rw [Allocator.draws]
      cases m.allocator.draw.1 <;> rfl
    · rw [List.filterMap_cons_none hdrawn, heq, hallocator]
      refine ⟨n, Nat.le_trans hn (List.count_le_count_cons ..), fun hnever => ?_, rfl⟩
      rw [List.count_cons_of_ne fun hq => hhit hq hnever]
      exact hall hnever

end Store

namespace Allocator

/-- An allocator that starts anywhere is at a position that is a word and not zero: to start at zero
is to start at one. -/
theorem position_startingFrom (start : UInt64) :
    (startingFrom start).position ≠ 0 ∧ (startingFrom start).position < UInt64.size := by
  have hword : start.toNat < UInt64.size := start.toNat_lt
  show max start.toNat 1 ≠ 0 ∧ max start.toNat 1 < UInt64.size
  unfold UInt64.size at *
  omega

/-- **Draws wrap around.** From any start, draws are in order, with increasing ids and no id after a
draw that found none, exactly if they stop at the draw that comes after the last word. Draws beyond
it go on from one, so no id is drawn twice exactly if there are no more than 2^64 draws. In
particular no store in memory gives out an id twice, whatever calls are made of it and whichever of
them fail, as long as no more than 2^64 of them draw. -/
theorem draws_wrap_around (start : UInt64) (n : Nat) (outages : Store.Outages) (moment : Nat)
    (requests : List Store.Request) :
    (InOrder ((startingFrom start).draws n) ↔ n ≤ UInt64.size - max start.toNat 1 + 1) ∧
      (((startingFrom start).draws n).reduceOption.Nodup ↔ n ≤ UInt64.size) ∧
      (requests.count .allocate ≤ UInt64.size →
        (((⟨.memory Store.Memory.empty, outages⟩ : Store).exchanges moment
          (requests.map .call)).filterMap Store.drawnId?).Nodup) := by
  obtain ⟨hpos, hlt⟩ := position_startingFrom start
  refine ⟨inOrder_draws_iff hpos hlt, nodup_draws_iff hpos hlt, fun hcount => ?_⟩
  obtain ⟨k, hk, -, heq⟩ := Store.exists_draws_of_memory .empty outages moment requests
  obtain ⟨hpos, hlt⟩ := position_startingFrom 1
  rw [heq]
  exact (nodup_draws_iff hpos hlt).2 (Nat.le_trans hk hcount)

/-- The two draws from the last word are in order, and so are the ids that a store in memory draws
around a write. -/
theorem draws_wrap_around_of_last_word :
    let requests : List Store.Request := [.allocate, .remove ⟨1, by decide⟩, .allocate]
    InOrder ((startingFrom 0xffffffffffffffff).draws 2) ∧
      requests.count .allocate ≤ UInt64.size ∧
      ((Store.inMemory.exchanges 0 (requests.map .call)).filterMap Store.drawnId?).Nodup := by
  intro requests
  have h := draws_wrap_around 0xffffffffffffffff 2 Store.Outages.never 0 requests
  have hcount : requests.count .allocate ≤ UInt64.size := by decide
  exact ⟨h.1.2 (by decide), hcount, h.2.2 hcount⟩

/-- Draws do not stay in order: the draw after the last word finds no id, and the next one starts
over from one. So a store in memory gives out its first id again after 2^64 draws. -/
theorem draws_start_over :
    (startingFrom 0xffffffffffffffff).draws 3 =
        [some ⟨0xffffffffffffffff, by decide⟩, none, some ⟨1, by decide⟩] ∧
      ¬ InOrder ((startingFrom 0xffffffffffffffff).draws 3) ∧
      ¬ ((Store.inMemory.exchanges 0 ((List.replicate (UInt64.size + 1) Store.Request.allocate).map
        .call)).filterMap Store.drawnId?).Nodup := by
  obtain ⟨hpos, hlt⟩ := position_startingFrom 0xffffffffffffffff
  obtain ⟨hpos', hlt'⟩ := position_startingFrom 1
  refine ⟨by decide, fun h => ?_, fun h => ?_⟩
  · exact absurd ((inOrder_draws_iff hpos hlt).1 h) (by decide)
  · obtain ⟨n, -, hall, heq⟩ := Store.exists_draws_of_memory .empty .never 0
      (List.replicate (UInt64.size + 1) Store.Request.allocate)
    have hn : n = UInt64.size + 1 := (hall rfl).trans List.count_replicate_self
    have hle : n ≤ UInt64.size := (nodup_draws_iff hpos' hlt').1 (heq ▸ h)
    unfold UInt64.size at *
    omega

end Allocator

end SymbolTable
