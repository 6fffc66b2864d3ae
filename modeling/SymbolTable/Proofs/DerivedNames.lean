import SymbolTable.Proofs.Table.Proper

/-!
# Names derived from addresses

A name that is derived from an address is never one that may be chosen: where it is not too long,
its form is what speaks against it (`Name.check_derived`). And it tells the offset of its address,
whatever the stem and however many zeros stand in front (`Name.offset_eq_of_derived_eq`), since a
padded numeral reads back as its number (`Hex.value_padded`). So among the addresses of one space no
two derive one name, also where an offset is wider than its space
(`Name.chosen_names_are_not_derived`).
-/

namespace SymbolTable

/-! ## Padded numerals -/

namespace Hex

/-- Zeros in front do not change the number of a numeral. So an offset may be written with as many
digits as its space has. The induction is on the number of zeros. -/
theorem value_replicate_zero_append (k : Nat) (cs : List Char) : value (List.replicate k '0' ++ cs) = value cs := by
  have hzero : (16 * 0 + digitValue '0') = 0 := by decide
  induction k with
  | zero => rfl
  | succ k ih =>
    rw [List.replicate_succ, List.cons_append, ← ih, value, List.foldl_cons, hzero, value]

/-- Padded digits read back as their number, at whatever width they were padded to. -/
theorem value_padded (width n : Nat) : value (padded width n) = n := by
  rw [padded, List.leftpad, value_replicate_zero_append, value_digits]

/-- Padded digits are digits, zeros in front included. So nothing but the stem and the underscore
stands in front of them. -/
theorem isDigit_of_mem_padded {width n : Nat} {c : Char} (hc : c ∈ padded width n) : isDigit c = true := by
  rw [padded, List.leftpad, List.mem_append, List.mem_replicate] at hc
  rcases hc with ⟨-, rfl⟩ | hc
  · decide
  · exact isDigit_of_mem_digits hc

/-- There is at least one digit. -/
theorem padded_ne_nil (width n : Nat) : padded width n ≠ [] := by
  rw [padded, List.leftpad]
  exact List.append_ne_nil_of_right_ne_nil _ (digits_ne_nil n)

/-- No digit is blank or a control character. Digits lie between `0` and `f`, and what is forbidden
lies below or above that. -/
theorem isForbidden_of_isDigit {c : Char} (hc : isDigit c = true) : Name.isForbidden c = false := by
  have hrange : 0x30 ≤ c.toNat ∧ c.toNat ≤ 0x66 := by
    simp only [isDigit, Bool.or_eq_true, Bool.and_eq_true, decide_eq_true_eq, Char.le_def, UInt32.le_iff_toNat_le] at hc
    change (0x30 ≤ c.toNat ∧ c.toNat ≤ 0x39 ∨ 0x61 ≤ c.toNat ∧ c.toNat ≤ 0x66) ∨ 0x41 ≤ c.toNat ∧ c.toNat ≤ 0x46 at hc
    omega
  simp [Name.isForbidden, Text.isBlank, Text.isControl, Text.inRanges, Text.whiteSpaceRanges]
  omega

end Hex

namespace Name

variable {stem : String}

/-- A derived name is its stem, an underscore and the padded digits of the offset. -/
theorem toList_derived (stem : String) (a : Address) :
    (derived stem a).toList = stem.toList ++ '_' :: Hex.padded a.hexWidth a.offset.toNat := by
  simp [derived, Address.hexOffset]

/-! ## Derived names are not chosen -/

/-- The names that are derived from addresses have the form that is reserved for them. No stem has
an underscore in it, so the first one is where the stem ends, and what comes after it are digits. -/
theorem isDerivedForm_derived (hstem : stem ∈ stems) (a : Address) : isDerivedForm (derived stem a) = true := by
  have hclean : ∀ stem ∈ stems, ∀ c ∈ stem.toList, decide (c ≠ '_') = true := by simp [stems]
  have hdigits : Hex.padded a.hexWidth a.offset.toNat ≠ [] := Hex.padded_ne_nil _ _
  have hall : ∀ c ∈ Hex.padded a.hexWidth a.offset.toNat, Hex.isDigit c = true :=
    fun c hc => Hex.isDigit_of_mem_padded hc
  rw [isDerivedForm, toList_derived, List.takeWhile_append_of_pos (hclean stem hstem),
    List.dropWhile_append_of_pos (hclean stem hstem)]
  simpa [hstem, hdigits] using hall

/-- No character of a derived name is one that speaks against it. It is one of the stem, the
underscore or a digit. There are few stems, so these are checked by evaluation. -/
theorem isForbidden_of_mem_derived (hstem : stem ∈ stems) {a : Address} {c : Char}
    (hc : c ∈ (derived stem a).toList) : isForbidden c = false := by
  have hclean : (stems.all fun stem => stem.toList.all fun c => isForbidden c = false) = true := by decide +kernel
  rw [toList_derived, List.mem_append, List.mem_cons] at hc
  rcases hc with hc | rfl | hc
  · exact of_decide_eq_true (List.all_eq_true.1 (List.all_eq_true.1 hclean stem hstem) c hc)
  · decide
  · exact Hex.isForbidden_of_isDigit (Hex.isDigit_of_mem_padded hc)

/-- A derived name is refused for its length or else for its form. Its stem is one of those of the
code, so its form is recognised. Its length is looked at first, and nothing else about it could be
wrong. -/
theorem check_derived (hstem : stem ∈ stems) (a : Address) (limit : Nat) :
    check (derived stem a) limit =
      .error (if limit < (derived stem a).toList.length then .tooLong limit else .derivedForm (derived stem a)) := by
  have hnonempty : (derived stem a).toList.isEmpty = false := by
    simp [toList_derived]
  have hfind : (derived stem a).toList.find? isForbidden = none := by
    rw [List.find?_eq_none]
    intro c hc
    simp [isForbidden_of_mem_derived hstem hc]
  unfold check
  rw [hnonempty, hfind, isDerivedForm_derived hstem]
  by_cases hlong : limit < (derived stem a).toList.length
  · simp only [if_pos hlong, Bool.false_eq_true, if_false]
  · simp only [if_neg hlong, Bool.false_eq_true, if_false, if_true]

/-! ## Derived names tell offsets -/

/-- A derived name tells the offset, whatever the widths of the spaces are. The stems are the same
and fall away, and the number is read back from the digits that are left. -/
theorem offset_eq_of_derived_eq {a b : Address} (h : derived stem a = derived stem b) : a.offset = b.offset := by
  have hdigits : Hex.padded a.hexWidth a.offset.toNat = Hex.padded b.hexWidth b.offset.toNat := by
    have hlist := congrArg String.toList h
    rw [toList_derived, toList_derived] at hlist
    exact List.tail_eq_of_cons_eq (List.append_cancel_left hlist)
  have hvalue := congrArg Hex.value hdigits
  rw [Hex.value_padded, Hex.value_padded] at hvalue
  exact UInt64.toNat_inj.1 hvalue

/-- **Chosen names are not derived ones.** A name that passes the check, at any limit, is derived
from no address by any of the stems: the check refuses every derived name, for its form unless it is
too long. And a stem derives different names from different addresses of one space. -/
theorem chosen_names_are_not_derived :
    (∀ (name : String) (limit : Nat), check name limit = .ok () →
      ∀ stem ∈ stems, ∀ a : Address, name ≠ derived stem a) ∧
    (∀ stem ∈ stems, ∀ (a : Address) (limit : Nat), check (derived stem a) limit =
      .error (if limit < (derived stem a).toList.length then .tooLong limit else .derivedForm (derived stem a))) ∧
    ∀ (stem : String) (a b : Address), a.space = b.space → (derived stem a = derived stem b ↔ a = b) := by
  refine ⟨?_, fun stem hstem => check_derived hstem, ?_⟩
  · rintro name limit hcheck stem hstem a rfl
    cases hcheck.symm.trans (check_derived hstem a limit)
  · intro stem a b hspace
    refine ⟨fun hname => ?_, fun hab => hab ▸ rfl⟩
    obtain ⟨space, offset⟩ := a
    obtain ⟨space', offset'⟩ := b
    obtain rfl : space = space' := hspace
    obtain rfl : offset = offset' := offset_eq_of_derived_eq hname
    rfl

/-- A name one letter away from a derived one passes the check, and two offsets that agree within
the 16 bits of their space derive two names. -/
theorem chosen_names_are_not_derived_near_miss :
    let near : Address := ⟨Space.register, 0x00f0⟩
    let far : Address := ⟨Space.register, 0x100f0⟩
    check "FUN_00f0" 64 = .error (.derivedForm "FUN_00f0") ∧ check "FUN_00g0" 64 = .ok () ∧
      "FUN_00g0" ≠ derived "FUN" near ∧ near.space = far.space ∧ far.offset &&& far.space.mask = near.offset ∧
      derived "FUN" near = "FUN_00f0" ∧ derived "FUN" far = "FUN_100f0" ∧
      (derived "FUN" near = derived "FUN" far ↔ near = far) := by
  intro near far
  have hchosen : check "FUN_00g0" 64 = .ok () := by decide +kernel
  exact ⟨by decide +kernel, hchosen,
    chosen_names_are_not_derived.1 "FUN_00g0" 64 hchosen "FUN" (by decide) near, rfl, by decide, by decide +kernel,
    by decide +kernel, chosen_names_are_not_derived.2.2 "FUN" near far rfl⟩

end Name

end SymbolTable
