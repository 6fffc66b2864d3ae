import Mathlib.Data.List.Perm.Basic
import Mathlib.Data.Nat.ModEq
import SymbolTable.Proofs.Table.View

/-!
# Transfers

A stored symbol that moves along with a block is transferred from one address to another: its row
lies there then, its designation goes along unless another symbol is designated there, and what the
journal has at the one address stands at the other. This is a function of the rows, the designations
and the journal (`Table.terrain`, `Transfer.apply`), so transfers come to the same in every two
orders that differ by transfers that commute.

Rows are transferred by their ids, and for them the order makes no difference as long as no symbol
is transferred twice (`Terrain.rows_after`). Designations and the journal are transferred by
address. For them it does make one which of two symbols goes first, if one of them arrives where the
other one leaves from, but no more than this (`Terrain.after_perm`): two addresses of a space do not
come to lie at one when their block moves (`Address.relocated_inj`).
-/

namespace SymbolTable

/-! ## Addresses of a block -/

namespace Space

/-- How many bits of an offset count. -/
def width (s : Space) : Nat :=
  min s.bits.toNat 64

/-- The mask of a space has all its bits set below the width. If the width is that of a word, it is
the word with all bits set, and with no bits it is zero. -/
theorem toNat_mask (s : Space) : s.mask.toNat = 2 ^ s.width - 1 := by
  unfold mask width
  split
  · rename_i hzero
    rw [hzero]
    rfl
  · split
    · rename_i hle
      have hle' : 64 ≤ s.bits.toNat := UInt8.le_iff_toNat_le.1 hle
      rw [Nat.min_eq_right hle']
      rfl
    · rename_i hlt
      have hlt' : s.bits.toNat < 64 := UInt8.lt_iff_toNat_lt.1 (UInt8.not_le.1 hlt)
      have hpow : 2 ^ s.bits.toNat < 2 ^ 64 := Nat.pow_lt_pow_right (by omega) hlt'
      have hshift : ((1 : UInt64) <<< s.bits.toUInt64).toNat = 2 ^ s.bits.toNat := by
        rw [UInt64.toNat_shiftLeft, UInt8.toNat_toUInt64, Nat.mod_eq_of_lt hlt']
        show 1 <<< _ % _ = _
        rw [Nat.one_shiftLeft, Nat.mod_eq_of_lt hpow]
      have hle : (1 : UInt64) ≤ 1 <<< s.bits.toUInt64 := by
        rw [UInt64.le_iff_toNat_le, hshift]
        exact Nat.one_le_two_pow
      rw [Nat.min_eq_left (Nat.le_of_lt hlt'), UInt64.toNat_sub_of_le _ _ hle, hshift]
      rfl

/-- To mask an offset is to take it modulo the size of the space. -/
theorem toNat_and_mask (s : Space) (x : UInt64) : (x &&& s.mask).toNat = x.toNat % 2 ^ s.width := by
  rw [UInt64.toNat_and, s.toNat_mask, Nat.and_two_pow_sub_one_eq_mod]

end Space

namespace Address

/-- The address is one of the space: no bit of its offset lies beyond the width. -/
structure LiesIn (a : Address) (s : Space) : Prop where
  space : a.space = s
  truncated : a.offset &&& s.mask = a.offset

instance (a : Address) (s : Space) : Decidable (a.LiesIn s) :=
  decidable_of_iff (a.space = s ∧ a.offset &&& s.mask = a.offset) ⟨fun h => ⟨h.1, h.2⟩, fun h => ⟨h.1, h.2⟩⟩

variable {a b oldBase newBase : Address}

/-- An offset of the space is already reduced. -/
theorem LiesIn.toNat_mod {s : Space} (ha : a.LiesIn s) : a.offset.toNat % 2 ^ s.width = a.offset.toNat := by
  rw [← s.toNat_and_mask, ha.truncated]

/-- An address of the block goes to where it is as far from the new base as it was from the old one,
modulo the size of the space. -/
theorem relocated_eq (ha : a.space = oldBase.space) :
    a.relocated oldBase newBase =
      ⟨newBase.space, (newBase.offset + (a.offset - oldBase.offset)) &&& newBase.space.mask⟩ := by
  rw [relocated, distance?, if_pos ha]
  simp [displace]

/-- The words come round at a multiple of the size of a space, so this makes no difference to its
offsets. -/
theorem displaced_modEq (s : Space) (n x y : UInt64) :
    (n + (x - y)).toNat ≡ n.toNat + (2 ^ 64 - y.toNat + x.toNat) [MOD 2 ^ s.width] := by
  have hdvd : 2 ^ s.width ∣ 2 ^ 64 := Nat.pow_dvd_pow 2 (Nat.min_le_right ..)
  rw [UInt64.toNat_add, UInt64.toNat_sub]
  exact ((Nat.mod_modEq _ _).of_dvd hdvd).trans (((Nat.mod_modEq _ _).of_dvd hdvd).add_left _)

/-- Two addresses of a space do not come to lie at one when their block moves within the space.
Displacements by the same amount keep them apart, as they go round in the same circle. -/
theorem relocated_inj (hspace : newBase.space = oldBase.space) (ha : a.LiesIn oldBase.space)
    (hb : b.LiesIn oldBase.space) :
    a.relocated oldBase newBase = b.relocated oldBase newBase ↔ a = b := by
  refine ⟨fun heq => ?_, fun heq => by rw [heq]⟩
  rw [relocated_eq ha.space, relocated_eq hb.space, hspace] at heq
  have hoffset := congrArg UInt64.toNat (congrArg Address.offset heq)
  rw [Space.toNat_and_mask, Space.toNat_and_mask] at hoffset
  have hmodEq := (displaced_modEq ..).symm.trans (Nat.ModEq.trans hoffset (displaced_modEq ..))
  have hsame := (hmodEq.add_left_cancel' _).add_left_cancel' _
  rw [Nat.ModEq, ha.toNat_mod, hb.toNat_mod] at hsame
  have hoffsets : a.offset = b.offset := UInt64.toNat_inj.1 hsame
  cases a
  cases b
  cases hoffsets
  cases ha.space.trans hb.space.symm
  rfl

end Address

/-! ## One transfer -/

/-- To move the journal from an address to the same one changes nothing. Each entry is compared by
its address and by its key. -/
theorem Journal.moveAddress_self (j : Journal) (a : Address) : j.moveAddress a a = j := by
  have hentry (e : Entry) : e.move a a = e := by
    have haddress : (if e.address = a then a else e.address) = e.address := by grind
    have hkey : (if e.key = .derived a then .derived a else e.key) = e.key := by grind
    rw [Entry.move, haddress, hkey]
  rw [moveAddress, List.map_congr_left fun e _ => hentry e, List.map_id']

/-- What is transferred in a table: the rows, the designations and the journal. -/
structure Terrain where
  rows : List Row
  primaryAt : Address → Option SymbolId
  journal : Journal

/-- What there is to be transferred in a table. -/
def Table.terrain (t : Table) : Terrain :=
  ⟨t.rows, t.facts.primaryAt, t.journal⟩

/-- A stored symbol leaves an address for another one. -/
structure Transfer where
  id : SymbolId
  source : Address
  target : Address

namespace Transfer

/-- The row of the symbol lies at the target. -/
def row (m : Transfer) (r : Row) : Row :=
  if r.id = m.id then { r with address := m.target } else r

/-- If the symbol is designated at the source, it is so no more, and takes its designation to the
target unless another symbol has one there. -/
def primaryAt (m : Transfer) (p : Address → Option SymbolId) (a : Address) : Option SymbolId :=
  if p m.source ≠ some m.id then p a
  else if a = m.target then (p a).or (some m.id)
  else if a = m.source then none
  else p a

/-- What the transfer makes of what there is. -/
def apply (m : Transfer) (x : Terrain) : Terrain where
  rows := x.rows.map m.row
  primaryAt := m.primaryAt x.primaryAt
  journal := x.journal.moveAddress m.source m.target

variable {m m' : Transfer}

@[simp] theorem id_row (m : Transfer) (r : Row) : (m.row r).id = r.id := by
  unfold row
  split <;> rfl

/-- A transfer moves no row but its own. -/
theorem row_of_ne {r : Row} (hne : r.id ≠ m.id) : m.row r = r :=
  if_neg hne

/-- Transfers of two symbols move their rows in either order. Each of them leaves the row of the
other alone. -/
theorem row_comm (hne : m.id ≠ m'.id) (r : Row) : m'.row (m.row r) = m.row (m'.row r) := by
  by_cases hid : r.id = m.id
  · have hother : m'.row r = r := row_of_ne (hid ▸ hne)
    rw [hother, row_of_ne]
    rwa [id_row, hid]
  · have hid' : (m'.row r).id ≠ m.id := by rwa [id_row]
    rw [row_of_ne hid, row_of_ne hid']

/-- A symbol that stays where it lies keeps its designation. It is taken from the address and put
back there. -/
theorem primaryAt_of_stays (hstays : m.target = m.source) (p : Address → Option SymbolId) :
    m.primaryAt p = p := by
  funext a
  unfold primaryAt
  grind

/-- A symbol that stays where it lies is transferred without a trace. That the row lies where it is
said to leave from is needed, since the transfer puts it at the target. -/
theorem apply_of_stays {x : Terrain} (hstays : m.target = m.source)
    (hlies : ∀ r ∈ x.rows, r.id = m.id → r.address = m.source) : m.apply x = x := by
  have hrows : x.rows.map m.row = x.rows := by
    refine (List.map_congr_left fun r hr => ?_).trans (List.map_id x.rows)
    by_cases hid : r.id = m.id
    · rw [row, if_pos hid, hstays, ← hlies r hr hid]
      rfl
    · exact row_of_ne hid
  rw [apply, hrows, primaryAt_of_stays hstays, hstays, Journal.moveAddress_self]

/-- The symbol does not arrive where another one has yet to leave from. -/
def Clears (m m' : Transfer) : Prop :=
  m.target = m'.source → m'.target = m'.source

instance : DecidableRel Clears := fun m m' =>
  inferInstanceAs (Decidable (m.target = m'.source → m'.target = m'.source))

/-- Neither symbol arrives where the other one leaves from, and both arrive at one address exactly
if they leave from one. -/
structure Apart (m m' : Transfer) : Prop where
  ahead : m.Clears m'
  behind : m'.Clears m
  parallel : m.target = m'.target ↔ m.source = m'.source

namespace Apart

variable (h : Apart m m')

include h

/-- Transfers of two symbols designate the same ones in either order: they change different
addresses, or both lead from the same address to the same, where only one of the two can be
designated. -/
theorem primaryAt_comm (hne : m.id ≠ m'.id) (p : Address → Option SymbolId) :
    m'.primaryAt (m.primaryAt p) = m.primaryAt (m'.primaryAt p) := by
  obtain ⟨hahead, hbehind, hparallel⟩ := h
  funext a
  unfold Clears at hahead hbehind
  unfold primaryAt
  grind

/-- Entries of two transfers that are apart are carried along in either order: they stand at
different addresses, or at one and go to one. -/
theorem move_comm (e : Journal.Entry) :
    (e.move m.source m.target).move m'.source m'.target =
      (e.move m'.source m'.target).move m.source m.target := by
  obtain ⟨hahead, hbehind, hparallel⟩ := h
  unfold Clears at hahead hbehind
  unfold Journal.Entry.move
  grind

/-- The journal is carried along in either order by transfers that are apart. They are carried along
entry by entry, and for each entry it is known. -/
theorem moveAddress_comm (j : Journal) :
    (j.moveAddress m.source m.target).moveAddress m'.source m'.target =
      (j.moveAddress m'.source m'.target).moveAddress m.source m.target := by
  unfold Journal.moveAddress
  rw [List.map_map, List.map_map]
  exact congrArg Journal.mk (List.map_congr_left fun e _ => h.move_comm e)

/-- Transfers of two symbols come to the same in either order if they are apart. This is the step
that turns one order into another. -/
theorem apply_comm (hne : m.id ≠ m'.id) (x : Terrain) : m'.apply (m.apply x) = m.apply (m'.apply x) := by
  have hrows : (x.rows.map m.row).map m'.row = (x.rows.map m'.row).map m.row := by
    rw [List.map_map, List.map_map]
    exact List.map_congr_left fun r _ => row_comm hne r
  simp only [apply, hrows, h.primaryAt_comm hne, h.moveAddress_comm]

end Apart

end Transfer

/-! ## One transfer after the other -/

namespace Terrain

/-- What there is after transfers, of which the first comes first. -/
def after (x : Terrain) (ms : List Transfer) : Terrain :=
  ms.foldl (fun x m => m.apply x) x

@[simp] theorem after_cons (x : Terrain) (m : Transfer) (ms : List Transfer) :
    x.after (m :: ms) = (m.apply x).after ms := rfl

/-- Where no symbol is transferred twice, each lies where it was transferred to, and the others lie
where they did. -/
theorem rows_after {ms : List Transfer} (hnodup : (ms.map (·.id)).Nodup) (target : Row → Address)
    (x : Terrain) (htarget : ∀ r ∈ x.rows, ∀ m ∈ ms, m.id = r.id → m.target = target r) :
    (x.after ms).rows = x.rows.map fun r =>
      if r.id ∈ ms.map (·.id) then { r with address := target r } else r := by
  induction ms generalizing x with
  | nil => simp [after]
  | cons m ms ih =>
    obtain ⟨hfresh, hnodup⟩ := List.nodup_cons.1 hnodup
    have hlater : ∀ m' ∈ ms, m'.id ≠ m.id := by
      intro m' hm' heq
      exact hfresh (List.mem_map.2 ⟨m', hm', heq⟩)
    rw [after_cons, ih hnodup]
    · rw [Transfer.apply, List.map_map]
      refine List.map_congr_left fun r hr => ?_
      by_cases hid : r.id = m.id
      · have hfresh' : (m.row r).id ∉ ms.map (·.id) := by rwa [Transfer.id_row, hid]
        have hmem : r.id ∈ (m :: ms).map (·.id) := List.mem_map.2 ⟨m, .head _, hid.symm⟩
        have htarget := htarget r hr m (.head _) hid.symm
        simp only [Function.comp, if_neg hfresh', if_pos hmem]
        rw [Transfer.row, if_pos hid, htarget]
      · simp [Transfer.row_of_ne hid, hid]
    · intro x' hx' m' hm' hid
      obtain ⟨r, hr, rfl⟩ := List.mem_map.1 hx'
      rw [Transfer.id_row] at hid
      rw [Transfer.row_of_ne (hid ▸ hlater m' hm')]
      exact htarget r hr m' (.tail _ hm') hid

/-- A transfer may as well come before those from which it is apart. It is moved up past one of them
after the other. The induction is on those before it. -/
theorem after_middle {m : Transfer} {before later : List Transfer}
    (hapart : ∀ m' ∈ before, m'.id ≠ m.id ∧ m'.Apart m) (x : Terrain) :
    x.after (before ++ m :: later) = (m.apply x).after (before ++ later) := by
  induction before generalizing x with
  | nil => rfl
  | cons m' before ih =>
    obtain ⟨hid, hapart'⟩ := hapart m' (.head _)
    rw [List.cons_append, after_cons, ih fun m'' hm'' => hapart m'' (.tail _ hm''), hapart'.apply_comm hid]
    rfl

/-- Transfers of different symbols, which arrive at one address exactly if they leave from one, come
to the same in every two orders in which none arrives where a later one has yet to leave from. -/
theorem after_perm {ms ms' : List Transfer} (hperm : ms'.Perm ms) (hnodup : (ms.map (·.id)).Nodup)
    (hparallel : ∀ m ∈ ms, ∀ m' ∈ ms, m.target = m'.target ↔ m.source = m'.source)
    (hclears : ms.Pairwise Transfer.Clears) (hclears' : ms'.Pairwise Transfer.Clears) (x : Terrain) :
    x.after ms' = x.after ms := by
  induction ms generalizing ms' x with
  | nil => rw [hperm.eq_nil]
  | cons m ms ih =>
    obtain ⟨before, later, rfl⟩ := List.append_of_mem (hperm.mem_iff.2 (.head _))
    have hperm' : (before ++ later).Perm ms := (List.perm_cons m).1 (List.perm_middle.symm.trans hperm)
    obtain ⟨hfresh, hnodup⟩ := List.nodup_cons.1 hnodup
    obtain ⟨hfirst, hclears⟩ := List.pairwise_cons.1 hclears
    -- what comes before `m` in the one order and after it in the other is apart from it
    have hapart : ∀ m' ∈ before, m'.id ≠ m.id ∧ m'.Apart m := by
      intro m' hm'
      have hmem : m' ∈ ms := hperm'.mem_iff.1 (List.mem_append_left later hm')
      have hahead : m'.Clears m := (List.pairwise_append.1 hclears').2.2 m' hm' m (.head _)
      exact ⟨fun heq => hfresh (List.mem_map.2 ⟨m', hmem, heq⟩),
        hahead, hfirst m' hmem, hparallel m' (.tail _ hmem) m (.head _)⟩
    rw [after_middle hapart, after_cons]
    exact ih hperm' hnodup (fun m₁ h₁ m₂ h₂ => hparallel m₁ (.tail _ h₁) m₂ (.tail _ h₂)) hclears
      (hclears'.sublist ((List.sublist_cons_self m later).append_left before)) (m.apply x)

end Terrain

end SymbolTable
