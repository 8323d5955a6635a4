/-
The page tables implement a finite map.

The tables are read as a tree (`Radix.entry`): the entries along every path of
indices from the root.  Each write of the functions is one update of that tree,
and `TreeInv` relates the tree to the abstract map: leaves are the mappings, and
every entry above a leaf allows what the leaf allows.

* `inv_map`, `inv_mapHuge`, `inv_unmap` — the calls keep the invariant,
* `walk_eq` — under it the hardware's walk is the lookup in the abstract map,
* `refines_run` — after every run of valid calls the walk agrees with the map, no
  table in use was released, the released ones were empty, and the last call
  left the translation and the rights of every other page as they were.
-/
import Obos.PageTables
import Obos.Lib.Run

namespace Obos.PageTables

open List

/-! ### Words -/

section Words

variable {g w b : Word}

theorem or_and (g w b : Word) : (g ||| w) &&& b = (g &&& b) ||| (w &&& b) := by
  ext i
  simp [Bool.and_or_distrib_right]

variable (hg : IsFrame g)
include hg

/-- Bits outside the address are those of the flags. -/
theorem IsFrame.and_eq_zero (hb : 0xffffffffff000#64 &&& b = 0) : g &&& b = 0 := by
  rw [← hg, BitVec.and_assoc, hb]
  exact BitVec.and_zero

theorem IsFrame.test (hb : 0xffffffffff000#64 &&& b = 0) :
    (g ||| w) &&& b = w &&& b := by
  rw [or_and, hg.and_eq_zero hb]
  exact BitVec.zero_or

/-- The address of an entry whose flags are outside the address. -/
theorem IsFrame.mask (hw : w &&& 0xffffffffff000#64 = 0) :
    maskPhysicalAddressFromEntry (g ||| w) = g := by
  rw [maskPhysicalAddressFromEntry, or_and, hw, hg]
  exact BitVec.or_zero

theorem IsFrame.mask_self : maskPhysicalAddressFromEntry g = g := hg

theorem IsFrame.mergeFlags (w c : Word) :
    mergeFlags (g ||| w) c = g ||| mergeFlags w c := by
  have hx : ∀ w, (g ||| w) &&& xdBit = w &&& xdBit := fun w => hg.test (by decide)
  have h4 : ∀ w, (g ||| w) &&& 4#64 = w &&& 4#64 := fun w => hg.test (by decide)
  have h2 : ∀ w, (g ||| w) &&& 2#64 = w &&& 2#64 := fun w => hg.test (by decide)
  have hclear : (g ||| w) &&& ~~~ xdBit = g ||| (w &&& ~~~ xdBit) := by
    rw [or_and]
    congr 1
    rw [← hg, BitVec.and_assoc]
    rfl
  simp [PageTables.mergeFlags, hx, hclear, ← apply_ite (g ||| ·), h4, h2, BitVec.or_assoc]

end Words

/-! ### Entries -/

section

variable (fl : Flags)

/-- The word of the rights of an entry that is present. -/
def Flags.entry : Word := fl.word ||| 1#64

/-- Everything that either of the two allows. -/
def Flags.join (fl fl' : Flags) : Flags where
  write := fl.write || fl'.write
  user := fl.user || fl'.user
  noExecute := fl.noExecute && fl'.noExecute

theorem Flags.entry_mask : fl.entry &&& 0xffffffffff000#64 = 0 := by
  obtain ⟨_ | _, _ | _, _ | _⟩ := fl <;> decide

theorem Flags.tableFlags_entry : tableFlags fl.entry = fl.entry := by
  obtain ⟨_ | _, _ | _, _ | _⟩ := fl <;> decide

theorem Flags.leafFlags_word (nxe : Bool) (fl : Flags) :
    leafFlags nxe fl.word = (fl.allowed nxe).entry := by
  cases nxe <;> obtain ⟨_ | _, _ | _, _ | _⟩ := fl <;> decide

theorem Flags.merge_entry (fl fl' : Flags) :
    mergeFlags fl.entry fl'.entry = (fl.join fl').entry := by
  obtain ⟨_ | _, _ | _, _ | _⟩ := fl <;> obtain ⟨_ | _, _ | _, _ | _⟩ := fl' <;> decide

theorem Flags.entry_present : fl.entry &&& 1#64 = 1#64 := by
  obtain ⟨_ | _, _ | _, _ | _⟩ := fl <;> decide

theorem Flags.entry_huge : fl.entry &&& 0x80#64 = 0 := by
  obtain ⟨_ | _, _ | _, _ | _⟩ := fl <;> decide

theorem Flags.entry_write : fl.entry &&& 2#64 ≠ 0 ↔ fl.write = true := by
  obtain ⟨_ | _, _ | _, _ | _⟩ := fl <;> decide

theorem Flags.entry_user : fl.entry &&& 4#64 ≠ 0 ↔ fl.user = true := by
  obtain ⟨_ | _, _ | _, _ | _⟩ := fl <;> decide

theorem Flags.entry_noExecute : fl.entry &&& xdBit ≠ 0 ↔ fl.noExecute = true := by
  obtain ⟨_ | _, _ | _, _ | _⟩ := fl <;> decide

end

/-- The entry of a table, or of a page of 4 KiB. -/
def entryOf (g : Word) (fl : Flags) : Word := g ||| fl.entry

/-- The entry of a page of 2 MiB. -/
def hugeEntryOf (g : Word) (fl : Flags) : Word := g ||| fl.entry ||| 0x80#64

/-- `fl` may not allow more than the entry does. -/
structure Covers (e : Word) (fl : Flags) : Prop where
  present : e &&& 1#64 ≠ 0
  write : fl.write = true → e &&& 2#64 ≠ 0
  user : fl.user = true → e &&& 4#64 ≠ 0
  execute : e &&& xdBit ≠ 0 → fl.noExecute = true

theorem ne_zero_of_present {e : Word} (h : e &&& 1#64 ≠ 0) : e ≠ 0 := by
  rintro rfl
  exact h BitVec.zero_and

theorem Covers.ne_zero {e : Word} {fl : Flags} (h : Covers e fl) : e ≠ 0 :=
  ne_zero_of_present h.present

section Entries

variable {g : Word} {fl fl' : Flags}

theorem mask_entryOf (hg : IsFrame g) : maskPhysicalAddressFromEntry (entryOf g fl) = g :=
  hg.mask fl.entry_mask

theorem entryOf_and (hg : IsFrame g) {b : Word} (hb : 0xffffffffff000#64 &&& b = 0) :
    entryOf g fl &&& b = fl.entry &&& b :=
  hg.test hb

theorem present_entryOf (hg : IsFrame g) : entryOf g fl &&& 1#64 ≠ 0 := by
  rw [entryOf_and hg (by decide), fl.entry_present]
  decide

theorem huge_entryOf (hg : IsFrame g) : entryOf g fl &&& 0x80#64 = 0 := by
  rw [entryOf_and hg (by decide), fl.entry_huge]

theorem entryOf_ne_zero (hg : IsFrame g) : entryOf g fl ≠ 0 :=
  ne_zero_of_present (present_entryOf hg)

theorem outside_frame {b : Word} (hb : 0xffffffffff080#64 &&& b = 0) : 0xffffffffff000#64 &&& b = 0 := by
  rw [show (0xffffffffff000#64 : Word) = 0xffffffffff000#64 &&& 0xffffffffff080#64 by decide,
    BitVec.and_assoc, hb]
  exact BitVec.and_zero

theorem hugeEntryOf_and {b : Word} (hg : IsFrame g) (hb : 0xffffffffff080#64 &&& b = 0) :
    hugeEntryOf g fl &&& b = fl.entry &&& b := by
  have h2 : 0x80#64 &&& b = 0 := by
    rw [show (0x80#64 : Word) = 0x80#64 &&& 0xffffffffff080#64 by decide, BitVec.and_assoc, hb]
    exact BitVec.and_zero
  rw [hugeEntryOf, or_and, hg.test (outside_frame hb), h2]
  exact BitVec.or_zero

theorem huge_hugeEntryOf (hg : IsFrame g) : hugeEntryOf g fl &&& 0x80#64 ≠ 0 := by
  rw [hugeEntryOf, or_and, hg.test (by decide), fl.entry_huge]
  decide

theorem present_hugeEntryOf (hg : IsFrame g) : hugeEntryOf g fl &&& 1#64 ≠ 0 := by
  rw [hugeEntryOf_and hg (by decide), fl.entry_present]
  decide

theorem hugeEntryOf_ne_zero (hg : IsFrame g) : hugeEntryOf g fl ≠ 0 :=
  ne_zero_of_present (present_hugeEntryOf hg)

/-- The address of a huge page. -/
theorem mask_hugeEntryOf (hg : g &&& 0xfffffffe00000#64 = g) :
    hugeEntryOf g fl &&& 0xfffffffe00000#64 = g := by
  have hfl : fl.entry &&& 0xfffffffe00000#64 = 0 := by
    obtain ⟨_ | _, _ | _, _ | _⟩ := fl <;> decide
  rw [hugeEntryOf, or_and, or_and, hg, hfl]
  exact BitVec.or_zero.trans BitVec.or_zero

theorem mergeFlags_entryOf (hg : IsFrame g) :
    mergeFlags (entryOf g fl) fl'.entry = entryOf g (fl.join fl') := by
  rw [entryOf, hg.mergeFlags, Flags.merge_entry]
  rfl

theorem covers_entryOf (hg : IsFrame g) : Covers (entryOf g fl) fl' ↔
    (fl'.write = true → fl.write = true) ∧ (fl'.user = true → fl.user = true) ∧
    (fl.noExecute = true → fl'.noExecute = true) := by
  have h2 := fl.entry_write
  have h4 := fl.entry_user
  have hx := fl.entry_noExecute
  rw [← entryOf_and (g := g) hg (by decide)] at h2 h4 hx
  rw [← h2, ← h4, ← hx]
  exact ⟨fun h => ⟨h.write, h.user, h.execute⟩, fun h => ⟨present_entryOf hg, h.1, h.2.1, h.2.2⟩⟩

theorem covers_self (hg : IsFrame g) : Covers (entryOf g fl) fl :=
  (covers_entryOf hg).mpr ⟨id, id, id⟩

/-- A merged entry covers what the old one covered, and the new page. -/
theorem covers_join (hg : IsFrame g) :
    Covers (entryOf g (fl.join fl')) fl' ∧
    ∀ fl₀, Covers (entryOf g fl) fl₀ → Covers (entryOf g (fl.join fl')) fl₀ := by
  constructor
  · rw [covers_entryOf hg]
    simp only [Flags.join, Bool.or_eq_true, Bool.and_eq_true]
    exact ⟨Or.inr, Or.inr, And.right⟩
  · intro fl₀
    rw [covers_entryOf hg, covers_entryOf hg]
    rintro ⟨hw, hu, hx⟩
    simp only [Flags.join, Bool.or_eq_true, Bool.and_eq_true]
    exact ⟨fun h => Or.inl (hw h), fun h => Or.inl (hu h), fun h => hx h.1⟩

theorem all_rights {es : List Word} {e w : Word} {r : Bool} (hes : ∀ x ∈ es, r = true → x &&& w ≠ 0)
    (he : e &&& w ≠ 0 ↔ r = true) : (es ++ [e]).all (fun x => decide (x &&& w ≠ 0)) = r := by
  rw [Bool.eq_iff_iff, ← he]
  simp only [all_append, all_cons, all_nil, Bool.and_true, Bool.and_eq_true,
    all_eq_true, decide_eq_true_eq]
  exact ⟨And.right, fun h => ⟨fun x hx => hes x hx (he.mp h), h⟩⟩

/-- The rights of a path are those of its leaf when every entry covers it. -/
theorem rights_eq {es : List Word} {e : Word} (hes : ∀ x ∈ es, Covers x fl)
    (he : ∀ w : Word, 0xffffffffff080#64 &&& w = 0 → e &&& w = fl.entry &&& w) :
    rights (es ++ [e]) = fl := by
  have hw : e &&& 2#64 ≠ 0 ↔ _ := he 2 (by decide) ▸ fl.entry_write
  have hu : e &&& 4#64 ≠ 0 ↔ _ := he 4 (by decide) ▸ fl.entry_user
  have hx : e &&& xdBit ≠ 0 ↔ _ := he xdBit (by decide) ▸ fl.entry_noExecute
  have hnx : (rights (es ++ [e])).noExecute = fl.noExecute := by
    rw [Bool.eq_iff_iff, ← hx]
    simp only [rights, any_append, any_cons, any_nil, Bool.or_false,
      Bool.or_eq_true, any_eq_true, decide_eq_true_eq]
    refine ⟨fun h => h.elim (fun ⟨x, hm, hxx⟩ => hx.mpr ((hes x hm).execute hxx)) id, Or.inr⟩
  calc rights (es ++ [e])
      = ⟨(rights (es ++ [e])).write, (rights (es ++ [e])).user,
          (rights (es ++ [e])).noExecute⟩ := rfl
    _ = fl := by
      rw [hnx, rights, all_rights (fun x hm => (hes x hm).write) hw,
        all_rights (fun x hm => (hes x hm).user) hu]

end Entries

/-! ### Addresses and indices -/

/-- The canonical address of the page with the given indices. -/
def pageAddr (a b c d : Fin 512) : Word :=
  let n := a.val * 2 ^ 39 + b.val * 2 ^ 30 + c.val * 2 ^ 21 + d.val * 2 ^ 12
  BitVec.ofNat 64 (if 2 ^ 47 ≤ n then n + 0xffff000000000000 else n)

theorem addressToIndex_val (va : Word) (l : ℕ) :
    (addressToIndex va l).val = va.toNat / 2 ^ (9 * l + 12) % 512 := by
  rw [addressToIndex, Fin.val_ofNat, BitVec.toNat_and, BitVec.toNat_ushiftRight,
    Nat.shiftRight_eq_div_pow]
  show (_ &&& 2 ^ 9 - 1) % 512 = _
  rw [Nat.and_two_pow_sub_one_eq_mod, Nat.mod_mod]

theorem isCanonical_iff (va : Word) :
    isCanonical va = true ↔ va.toNat / 2 ^ 47 = 0 ∨ va.toNat / 2 ^ 47 = 0x1ffff := by
  simp only [isCanonical, decide_eq_true_eq, ← BitVec.toNat_inj, BitVec.toNat_ushiftRight,
    Nat.shiftRight_eq_div_pow]
  rfl

/-- Clearing the low bits of an address. -/
theorem toNat_and_not (va : Word) (k : ℕ) :
    (va &&& ~~~ BitVec.ofNat 64 (2 ^ k - 1)).toNat = va.toNat / 2 ^ k * 2 ^ k := by
  have h : va &&& ~~~ BitVec.ofNat 64 (2 ^ k - 1) = (va >>> k) <<< k := by
    refine BitVec.eq_of_getLsbD_eq fun i hi => ?_
    simp only [BitVec.getLsbD_and, BitVec.getLsbD_not, BitVec.getLsbD_ofNat, BitVec.getLsbD_shiftLeft,
      BitVec.getLsbD_ushiftRight, Nat.testBit_two_pow_sub_one, hi, decide_true, Bool.true_and]
    by_cases hik : i < k
    · simp [hik]
    · have hki : k + (i - k) = i := by omega
      simp [hik, hki]
  have hlt : va.toNat / 2 ^ k * 2 ^ k < 2 ^ 64 :=
    lt_of_le_of_lt (Nat.div_mul_le_self _ _) va.isLt
  rw [h, BitVec.toNat_shiftLeft, BitVec.toNat_ushiftRight, Nat.shiftRight_eq_div_pow,
    Nat.shiftLeft_eq, Nat.mod_eq_of_lt hlt]

theorem pageAddr_toNat (a b c d : Fin 512) :
    (pageAddr a b c d).toNat =
      if 2 ^ 47 ≤ a.val * 2 ^ 39 + b.val * 2 ^ 30 + c.val * 2 ^ 21 + d.val * 2 ^ 12 then
        a.val * 2 ^ 39 + b.val * 2 ^ 30 + c.val * 2 ^ 21 + d.val * 2 ^ 12 + 0xffff000000000000
      else a.val * 2 ^ 39 + b.val * 2 ^ 30 + c.val * 2 ^ 21 + d.val * 2 ^ 12 := by
  rw [pageAddr, BitVec.toNat_ofNat]
  refine Nat.mod_eq_of_lt ?_
  split <;> omega

/-- Pages with different indices have different addresses. -/
theorem pageAddr_inj {a b c d a' b' c' d' : Fin 512} (h : pageAddr a b c d = pageAddr a' b' c' d') :
    a = a' ∧ b = b' ∧ c = c' ∧ d = d' := by
  have hn := congrArg BitVec.toNat h
  rw [pageAddr_toNat, pageAddr_toNat] at hn
  simp only [Fin.ext_iff]
  split at hn <;> split at hn <;> omega

/-- The page at index `d` of the last table of an address. -/
abbrev pageIn (va : Word) (d : Fin 512) : Word :=
  pageAddr (addressToIndex va 3) (addressToIndex va 2) (addressToIndex va 1) d

/-- The page of a canonical address is the page of its indices. -/
theorem pageAddr_eq {va : Word} (h : isCanonical va = true) :
    pageIn va (addressToIndex va 0) = pageBase va := by
  rw [isCanonical_iff] at h
  have hva := va.isLt
  rw [← BitVec.toNat_inj, pageAddr_toNat]
  have hb : (pageBase va).toNat = va.toNat / 2 ^ 12 * 2 ^ 12 := toNat_and_not va 12
  rw [hb]
  simp only [addressToIndex_val]
  split <;> omega

theorem hugeAddr_eq {va : Word} (h : isCanonical va = true) : pageIn va 0 = hugeBase va := by
  rw [isCanonical_iff] at h
  have hva := va.isLt
  rw [← BitVec.toNat_inj, pageAddr_toNat]
  have hb : (hugeBase va).toNat = va.toNat / 2 ^ 21 * 2 ^ 21 := toNat_and_not va 21
  rw [hb]
  simp only [addressToIndex_val, Fin.val_zero]
  split <;> omega

/-! ### The tree of tables and the abstract map -/

namespace PageMap

variable {M : PageMap} {va va' : Word} {x : Option Mapping}

theorem small_setSmall_self : (M.setSmall va x).small va = x := by simp [setSmall]

theorem small_setSmall_of_ne (h : va' ≠ va) : (M.setSmall va x).small va' = M.small va' := by
  simp [setSmall, h]

theorem huge_setHuge_of_ne (h : va' ≠ va) : (M.setHuge va x).huge va' = M.huge va' := by
  simp [setHuge, h]

theorem small_setSmall_iff {y : Option Mapping} : (M.setSmall va x).small va' = y ↔
    va' = va ∧ x = y ∨ va' ≠ va ∧ M.small va' = y := by
  by_cases h : va' = va <;> simp [setSmall, h]

theorem huge_setHuge_iff {y : Option Mapping} : (M.setHuge va x).huge va' = y ↔
    va' = va ∧ x = y ∨ va' ≠ va ∧ M.huge va' = y := by
  by_cases h : va' = va <;> simp [setHuge, h]

/-- A change of one page leaves the translation of every other. -/
theorem lookup_setSmall (h : pageBase va' ≠ va) : (M.setSmall va x).lookup va' = M.lookup va' := by
  rw [lookup, lookup, small_setSmall_of_ne h]
  rfl

theorem lookup_setHuge (h : hugeBase va' ≠ va) : (M.setHuge va x).lookup va' = M.lookup va' := by
  rw [lookup, lookup, huge_setHuge_of_ne h]
  rfl

theorem setSmall_same (h : M.small va = x) : M.setSmall va x = M := by
  rw [setSmall, ← h, Function.update_eq_self]

end PageMap

/-- The table that an entry points to: the entries of the third level may be
huge pages. -/
def sub : ℕ → Word → Option Word
  | 0, e => if e = 0 then none else some (maskPhysicalAddressFromEntry e)
  | 1, e => if e = 0 then none else some (maskPhysicalAddressFromEntry e)
  | 2, e => if e = 0 ∨ e &&& 0x80#64 ≠ 0 then none else some (maskPhysicalAddressFromEntry e)
  | _, _ => none

/-- The entry points to a table. -/
def IsTable (e : Word) : Prop := ∃ g fl, IsFrame g ∧ g ≠ 0 ∧ e = entryOf g fl

/-- The word of a page of 4 KiB. -/
def smallWord : Option Mapping → Word
  | some m => entryOf m.phys m.flags
  | none => 0

theorem sub_zero (d : ℕ) : sub d 0 = none := by
  match d with
  | 0 => rfl
  | 1 => rfl
  | 2 => rfl
  | _ + 3 => rfl

theorem sub_table {e : Word} {d : ℕ} (hd : d ≤ 2) (he : IsTable e) :
    sub d e = some (maskPhysicalAddressFromEntry e) := by
  obtain ⟨g, fl, hg, -, rfl⟩ := he
  have h0 : entryOf g fl ≠ 0 := entryOf_ne_zero hg
  have h80 : entryOf g fl &&& 0x80#64 = 0 := huge_entryOf hg
  match d, hd with
  | 0, _ => exact if_neg h0
  | 1, _ => exact if_neg h0
  | 2, _ => exact if_neg fun h => h.elim h0 fun h => h h80

theorem sub_huge {e : Word} (he : e &&& 0x80#64 ≠ 0) : sub 2 e = none := if_pos (Or.inr he)

theorem IsTable.present {e : Word} (h : IsTable e) : e &&& 1#64 ≠ 0 := by
  obtain ⟨g, fl, hg, -, rfl⟩ := h
  exact present_entryOf hg

theorem IsTable.not_huge {e : Word} (h : IsTable e) : e &&& 0x80#64 = 0 := by
  obtain ⟨g, fl, hg, -, rfl⟩ := h
  exact huge_entryOf hg

theorem IsTable.ne_zero {e : Word} (h : IsTable e) : e ≠ 0 := ne_zero_of_present h.present

theorem IsTable.mask_ne_zero {e : Word} (h : IsTable e) : maskPhysicalAddressFromEntry e ≠ 0 := by
  obtain ⟨g, fl, hg, hg0, rfl⟩ := h
  rwa [mask_entryOf hg]

/-- A huge page's address is that of a frame. -/
theorem isFrame_of_huge {g : Word} (h : g &&& 0xfffffffe00000#64 = g) : IsFrame g := by
  rw [IsFrame, ← h, BitVec.and_assoc]
  rfl

variable {T : List (Fin 512) → Fin 512 → Word} {p q : List (Fin 512)} {i j : Fin 512} {e : Word}

/-- The tree `T` implements the map `M`.  Tables of the last level have an entry
in use, but for the one at the indices of `hole`, which is being built or taken
down. -/
structure TreeInv (T : List (Fin 512) → Fin 512 → Word) (M : PageMap)
    (hole : Option (Fin 512 × Fin 512 × Fin 512)) : Prop where
  top : ∀ p i, p.length < 2 → T p i = 0 ∨ IsTable (T p i)
  huge : ∀ a b c m, M.huge (pageAddr a b c 0) = some m →
    T [b, a] c = hugeEntryOf m.phys m.flags
  notHuge : ∀ a b c, M.huge (pageAddr a b c 0) = none → T [b, a] c = 0 ∨ IsTable (T [b, a] c)
  small : ∀ a b c d, T [c, b, a] d = smallWord (M.small (pageAddr a b c d))
  smallFrame : ∀ va m, M.small va = some m → IsFrame m.phys
  hugeFrame : ∀ va m, M.huge va = some m → m.phys &&& 0xfffffffe00000#64 = m.phys
  coverSmall : ∀ a b c d m, M.small (pageAddr a b c d) = some m →
    Covers (T [] a) m.flags ∧ Covers (T [a] b) m.flags ∧ Covers (T [b, a] c) m.flags ∧
    T [b, a] c &&& 0x80#64 = 0
  coverHuge : ∀ a b c m, M.huge (pageAddr a b c 0) = some m →
    Covers (T [] a) m.flags ∧ Covers (T [a] b) m.flags
  nonempty : ∀ a b c, hole ≠ some (a, b, c) → IsTable (T [b, a] c) → ∃ d, T [c, b, a] d ≠ 0

/-- The tree with one entry changed. -/
def update (T : List (Fin 512) → Fin 512 → Word) (p : List (Fin 512)) (i : Fin 512) (e : Word) :
    List (Fin 512) → Fin 512 → Word := fun q j => if q = p ∧ j = i then e else T q j

theorem update_self : update T p i e p i = e := if_pos ⟨rfl, rfl⟩

theorem update_of_ne (h : ¬ (q = p ∧ j = i)) : update T p i e q j = T q j := if_neg h

theorem update_of_length (h : q.length ≠ p.length) : update T p i e q j = T q j :=
  update_of_ne fun hq => h (congrArg List.length hq.1)

theorem update_cases {P : Word → Prop} (hself : q = p → j = i → P e)
    (hother : ¬ (q = p ∧ j = i) → P (T q j)) : P (update T p i e q j) := by
  by_cases h : q = p ∧ j = i
  · obtain ⟨rfl, rfl⟩ := h
    rw [update_self]
    exact hself rfl rfl
  · rw [update_of_ne h]
    exact hother h

namespace TreeInv

variable {M : PageMap} {hole : Option (Fin 512 × Fin 512 × Fin 512)} {a b c d : Fin 512}

section

variable (h : TreeInv T M hole)
include h

theorem isFrame_huge {va : Word} {m : Mapping} (hm : M.huge va = some m) :
    IsFrame m.phys :=
  isFrame_of_huge (h.hugeFrame va m hm)

/-- A third-level entry that is empty or points to a table is no huge page. -/
theorem huge_eq_none (hT : T [b, a] c = 0 ∨ IsTable (T [b, a] c)) :
    M.huge (pageAddr a b c 0) = none := by
  cases hm : M.huge (pageAddr a b c 0) with
  | none => rfl
  | some m =>
    have he := h.huge a b c m hm
    have hf := h.isFrame_huge hm
    rw [he] at hT
    obtain h0 | ht := hT
    · exact absurd h0 (hugeEntryOf_ne_zero hf)
    · exact absurd ht.not_huge (huge_hugeEntryOf hf)

/-- A page of 4 KiB is mapped where its word is not zero. -/
theorem small_eq_none (hT : T [c, b, a] d = 0) :
    M.small (pageAddr a b c d) = none := by
  cases hm : M.small (pageAddr a b c d) with
  | none => rfl
  | some m =>
    have he := h.small a b c d
    rw [hT, hm] at he
    exact absurd he.symm (entryOf_ne_zero (h.smallFrame _ m hm))

/-- An entry of an upper level is written, or cleared: what it points to is a table, and it
still covers the pages below it, if any. -/
theorem setUpper (hp : p.length ≤ 2)
    (hold : T p i = 0 ∨ IsTable (T p i)) (hnew : e = 0 ∨ IsTable e)
    (hcov : ∀ fl j, T (i :: p) j ≠ 0 → Covers (T p i) fl → Covers e fl)
    (hhole : ∀ a b, p = [b, a] → IsTable e → hole = some (a, b, i)) :
    TreeInv (update T p i e) M hole := by
  have hcov' : ∀ q j k fl, T (j :: q) k ≠ 0 → Covers (T q j) fl → Covers (update T p i e q j) fl :=
    fun q j k fl hk hc => update_cases (P := (Covers · fl))
      (fun hq hj => hcov fl k (hq ▸ hj ▸ hk) (hq ▸ hj ▸ hc)) fun _ => hc
  refine ⟨fun q j hq => ?_, fun a b c m hm => ?_, fun a b c hm => ?_, fun a b c d => ?_,
    h.smallFrame, h.hugeFrame, fun a b c d m hm => ?_, fun a b c m hm => ?_, fun a b c hne ht => ?_⟩
  · exact update_cases (P := fun e => e = 0 ∨ IsTable e) (fun _ _ => hnew) fun _ => h.top q j hq
  · rw [update_of_ne]
    · exact h.huge a b c m hm
    · rintro ⟨rfl, rfl⟩
      rw [h.huge_eq_none hold] at hm
      cases hm
  · exact update_cases (P := fun e => e = 0 ∨ IsTable e) (fun _ _ => hnew)
      fun _ => h.notHuge a b c hm
  · rw [update_of_length (by simp; omega)]
    exact h.small a b c d
  · obtain ⟨h1, h2, h3, h4⟩ := h.coverSmall a b c d m hm
    have hd : T [c, b, a] d ≠ 0 := by
      rw [h.small, hm]
      exact entryOf_ne_zero (h.smallFrame _ m hm)
    exact ⟨hcov' _ _ _ _ h2.ne_zero h1, hcov' _ _ _ _ h3.ne_zero h2, hcov' _ _ _ _ hd h3,
      update_cases (P := (· &&& 0x80#64 = 0))
        (fun _ _ => hnew.elim (by rintro rfl; exact BitVec.zero_and) IsTable.not_huge) fun _ => h4⟩
  · obtain ⟨h1, h2⟩ := h.coverHuge a b c m hm
    have hc : T [b, a] c ≠ 0 := by
      rw [h.huge a b c m hm]
      exact hugeEntryOf_ne_zero (h.isFrame_huge hm)
    exact ⟨hcov' _ _ _ _ h2.ne_zero h1, hcov' _ _ _ _ hc h2⟩
  · have hq : ¬ ([b, a] = p ∧ c = i) := by
      rintro ⟨rfl, rfl⟩
      rw [update_self] at ht
      exact hne (hhole a b rfl ht)
    rw [update_of_ne hq] at ht
    obtain ⟨d, hd⟩ := h.nonempty a b c hne ht
    refine ⟨d, ?_⟩
    rwa [update_of_length (by simp; omega)]

/-- An empty table is cut off. -/
theorem clear (hp : p.length ≤ 2) (ht : IsTable (T p i))
    (hempty : ∀ j, T (i :: p) j = 0) : TreeInv (update T p i 0) M hole :=
  h.setUpper hp (.inr ht) (.inl rfl) (fun _ j hj => absurd (hempty j) hj)
    fun _ _ _ h0 => absurd rfl h0.ne_zero

end

/-- The hole may be anywhere when there is none. -/
theorem open_hole (h : TreeInv T M none) : TreeInv T M hole :=
  ⟨h.top, h.huge, h.notHuge, h.small, h.smallFrame, h.hugeFrame, h.coverSmall, h.coverHuge,
    fun a b c _ ht => h.nonempty a b c (by simp) ht⟩

/-- The table at the hole has an entry in use, or is not there. -/
theorem close_hole (h : TreeInv T M (some (a, b, c)))
    (hne : IsTable (T [b, a] c) → ∃ d, T [c, b, a] d ≠ 0) : TreeInv T M none := by
  refine ⟨h.top, h.huge, h.notHuge, h.small, h.smallFrame, h.hugeFrame, h.coverSmall, h.coverHuge,
    fun a' b' c' _ ht => ?_⟩
  by_cases he : (a, b, c) = (a', b', c')
  · obtain ⟨rfl, rfl, rfl⟩ := he
    exact hne ht
  · exact h.nonempty a' b' c' (fun hs => he (Option.some.inj hs)) ht

/-- The word of a page of 4 KiB is written, below entries that cover it. -/
theorem setSmall (h : TreeInv T M (some (a, b, c))) {x : Option Mapping}
    (hx : ∀ m ∈ x, IsFrame m.phys ∧ Covers (T [] a) m.flags ∧ Covers (T [a] b) m.flags ∧
      Covers (T [b, a] c) m.flags ∧ T [b, a] c &&& 0x80#64 = 0) :
    TreeInv (update T [c, b, a] d (smallWord x))
      (M.setSmall (pageAddr a b c d) x) (some (a, b, c)) := by
  have hup : ∀ (q : List (Fin 512)) (j : Fin 512), q.length < 3 →
      update T [c, b, a] d (smallWord x) q j = T q j := fun q j hq =>
    update_of_length (by simp; omega)
  refine ⟨fun q j hq => ?_, fun a b c m hm => ?_, fun a b c hm => ?_, fun a' b' c' d' => ?_,
    fun va m hm => ?_, h.hugeFrame, fun a' b' c' d' m hm => ?_, fun a b c m hm => ?_,
    fun a' b' c' hne ht => ?_⟩
  · rw [hup q j (by omega)]
    exact h.top q j hq
  · rw [hup [b, a] c (by simp)]
    exact h.huge a b c m hm
  · rw [hup [b, a] c (by simp)]
    exact h.notHuge a b c hm
  · by_cases hq : [c', b', a'] = [c, b, a] ∧ d' = d
    · obtain ⟨⟨⟩, rfl⟩ := hq
      rw [update_self, PageMap.small_setSmall_self]
    · rw [update_of_ne hq, PageMap.small_setSmall_of_ne]
      · exact h.small a' b' c' d'
      · intro he
        obtain ⟨rfl, rfl, rfl, rfl⟩ := pageAddr_inj he
        exact hq ⟨rfl, rfl⟩
  · obtain ⟨-, hm⟩ | ⟨-, hm⟩ := PageMap.small_setSmall_iff.mp hm
    · exact (hx m hm).1
    · exact h.smallFrame va m hm
  · rw [hup [] a' (by simp), hup [a'] b' (by simp), hup [b', a'] c' (by simp)]
    obtain ⟨hva, hmx⟩ | ⟨-, hm⟩ := PageMap.small_setSmall_iff.mp hm
    · obtain ⟨rfl, rfl, rfl, rfl⟩ := pageAddr_inj hva
      exact (hx m hmx).2
    · exact h.coverSmall a' b' c' d' m hm
  · rw [hup [] a (by simp), hup [a] b (by simp)]
    exact h.coverHuge a b c m hm
  · rw [hup [b', a'] c' (by simp)] at ht
    obtain ⟨d', hd'⟩ := h.nonempty a' b' c' hne ht
    refine ⟨d', ?_⟩
    rwa [update_of_ne]
    rintro ⟨⟨⟩, -⟩
    exact hne rfl

/-- The word of a page of 2 MiB. -/
def hugeWord : Option Mapping → Word
  | some m => hugeEntryOf m.phys m.flags
  | none => 0

/-- The word of a page of 2 MiB is written, where no page of 4 KiB is mapped. -/
theorem setHuge (h : TreeInv T M hole) {x : Option Mapping}
    (hsmall : ∀ d, M.small (pageAddr a b c d) = none)
    (hx : ∀ m ∈ x, m.phys &&& 0xfffffffe00000#64 = m.phys ∧ Covers (T [] a) m.flags ∧
      Covers (T [a] b) m.flags) :
    TreeInv (update T [b, a] c (hugeWord x))
      (M.setHuge (pageAddr a b c 0) x) hole := by
  have hup : ∀ (q : List (Fin 512)) (j : Fin 512), q.length ≠ 2 →
      update T [b, a] c (hugeWord x) q j = T q j := fun q j hq => update_of_length hq
  -- another page of 2 MiB has another entry
  have hne : ∀ a' b' c', pageAddr a' b' c' 0 ≠ pageAddr a b c 0 →
      update T [b, a] c (hugeWord x) [b', a'] c' = T [b', a'] c' := by
    intro a' b' c' hva
    refine update_of_ne ?_
    rintro ⟨⟨⟩, rfl⟩
    exact hva rfl
  have hnt : ¬ IsTable (hugeWord x) := by
    cases x with
    | none => exact fun ht => ht.ne_zero rfl
    | some m => exact fun ht => huge_hugeEntryOf (isFrame_of_huge (hx m rfl).1) ht.not_huge
  refine ⟨fun q j hq => ?_, fun a' b' c' m hm => ?_, fun a' b' c' hm => ?_, fun a b c d => ?_,
    h.smallFrame, fun va m hm => ?_, fun a' b' c' d' m hm => ?_, fun a' b' c' m hm => ?_,
    fun a' b' c' hho ht => ?_⟩
  · rw [hup q j (by omega)]
    exact h.top q j hq
  · obtain ⟨hva, rfl⟩ | ⟨hva, hm⟩ := PageMap.huge_setHuge_iff.mp hm
    · obtain ⟨rfl, rfl, rfl, -⟩ := pageAddr_inj hva
      exact update_self
    · rw [hne a' b' c' hva]
      exact h.huge a' b' c' m hm
  · obtain ⟨hva, rfl⟩ | ⟨hva, hm⟩ := PageMap.huge_setHuge_iff.mp hm
    · obtain ⟨rfl, rfl, rfl, -⟩ := pageAddr_inj hva
      exact .inl update_self
    · rw [hne a' b' c' hva]
      exact h.notHuge a' b' c' hm
  · rw [hup [c, b, a] d (by simp)]
    exact h.small a b c d
  · obtain ⟨-, hm⟩ | ⟨-, hm⟩ := PageMap.huge_setHuge_iff.mp hm
    · exact (hx m hm).1
    · exact h.hugeFrame va m hm
  · have hva : pageAddr a' b' c' 0 ≠ pageAddr a b c 0 := by
      intro hva
      obtain ⟨rfl, rfl, rfl, -⟩ := pageAddr_inj hva
      have hm' : M.small (pageAddr a' b' c' d') = some m := hm
      rw [hsmall d'] at hm'
      cases hm'
    rw [hup [] a' (by simp), hup [a'] b' (by simp), hne a' b' c' hva]
    exact h.coverSmall a' b' c' d' m hm
  · rw [hup [] a' (by simp), hup [a'] b' (by simp)]
    obtain ⟨hva, hmx⟩ | ⟨-, hm⟩ := PageMap.huge_setHuge_iff.mp hm
    · obtain ⟨rfl, rfl, rfl, -⟩ := pageAddr_inj hva
      exact (hx m hmx).2
    · exact h.coverHuge a' b' c' m hm
  · have hq : ¬ ([b', a'] = [b, a] ∧ c' = c) := by
      rintro ⟨⟨⟩, rfl⟩
      rw [update_self] at ht
      exact hnt ht
    rw [update_of_ne hq] at ht
    obtain ⟨d, hd⟩ := h.nonempty a' b' c' hho ht
    refine ⟨d, ?_⟩
    rwa [hup [c', b', a'] d (by simp)]

end TreeInv

/-! ### The tables in memory -/

/-- The tree of the tables. -/
def tree (s : State) : List (Fin 512) → Fin 512 → Word := Radix.entry sub s.mem s.cr3

def reach (s : State) : List (Fin 512) → Option Word := Radix.reach sub s.mem s.cr3

/-- The invariant of the tables and the abstract map. -/
structure Inv (s : State) (M : PageMap) (hole : Option (Fin 512 × Fin 512 × Fin 512)) : Prop where
  owned : Radix.Owned sub s.mem s.cr3
  used : ∀ p f, reach s p = some f → f ∈ s.tables
  root : IsFrame s.cr3 ∧ s.cr3 ≠ 0
  tree : TreeInv (tree s) M hole
  released : ∀ c ∈ s.released, ∀ i, c i = 0

/-- The indices of the table that holds the entry of level `l`. -/
def pathTo (va : Word) : ℕ → List (Fin 512)
  | 3 => []
  | 2 => [addressToIndex va 3]
  | 1 => [addressToIndex va 2, addressToIndex va 3]
  | _ => [addressToIndex va 1, addressToIndex va 2, addressToIndex va 3]

/-- The indices of the last table of an address. -/
abbrev holeAt (va : Word) : Option (Fin 512 × Fin 512 × Fin 512) :=
  some (addressToIndex va 3, addressToIndex va 2, addressToIndex va 1)

/-- The entry of level `l`. -/
abbrev entryAt (s : State) (va : Word) (l : ℕ) : Word := tree s (pathTo va l) (addressToIndex va l)

/-- Frames for new tables. -/
def Fresh (s : State) (frames : List Word) : Prop :=
  frames.Nodup ∧ ∀ f ∈ frames, IsFrame f ∧ f ≠ 0 ∧ f ∉ s.tables

/-- The fresh table `g` is hooked up at an entry of the table `f`. -/
def State.hook (s : State) (f : Word) (i : Fin 512) (g : Word) (fl : Flags) : State :=
  { s with mem := Radix.write (Radix.clear s.mem g) f i (entryOf g fl), tables := g :: s.tables }

/-- The table `g` is cut off from an entry of the table `f` and released. -/
def State.cut (s : State) (f : Word) (i : Fin 512) (g : Word) : State :=
  { s with mem := Radix.write s.mem f i 0, tables := s.tables.erase g,
           released := s.mem g :: s.released }

theorem tree_eq {s : State} {f : Word} (h : reach s p = some f) (i : Fin 512) :
    tree s p i = s.mem f i :=
  Radix.entry_eq h

theorem IsTable.of_update {s s' : State} {va : Word} {k : ℕ} (ht : IsTable (entryAt s va k))
    (h : tree s' = update (tree s) p i e) (hk : (pathTo va k).length ≠ p.length) :
    IsTable (entryAt s' va k) := by
  rwa [entryAt, h, update_of_length hk]

theorem reach_cons {s : State} (p : List (Fin 512)) (i : Fin 512) :
    reach s (i :: p) = sub p.length (tree s p i) :=
  Radix.reach_cons sub_zero

/-- Below an entry that is empty there is nothing. -/
theorem tree_of_zero {s : State} (h : tree s p i = 0) (j : Fin 512) : tree s (i :: p) j = 0 := by
  refine Radix.entry_of_none (Eq.trans (reach_cons p i) ?_)
  rw [h, sub_zero]

theorem reach_of_table {s : State} (hp : p.length ≤ 2) (h : IsTable (tree s p i)) :
    reach s (i :: p) = some (maskPhysicalAddressFromEntry (tree s p i)) := by
  rw [reach_cons, sub_table hp h]

/-- The entries of the table that an entry points to. -/
theorem mem_below {s : State} (hp : p.length ≤ 2) (ht : IsTable (tree s p i)) (j : Fin 512) :
    s.mem (maskPhysicalAddressFromEntry (tree s p i)) j = tree s (i :: p) j :=
  (tree_eq (reach_of_table hp ht) j).symm

namespace Inv

variable {s : State} {M M' : PageMap} {hole hole' : Option (Fin 512 × Fin 512 × Fin 512)}
  {f : Word} {frames : List Word}

/-- A write that leaves the table below the entry as it is. -/
theorem write (h : Inv s M hole) (hp : reach s p = some f)
    (he : sub p.length e = sub p.length (s.mem f i))
    (htree : TreeInv (update (PageTables.tree s) p i e) M' hole') :
    Inv { s with mem := Radix.write s.mem f i e } M' hole' ∧
    PageTables.tree { s with mem := Radix.write s.mem f i e } =
      update (PageTables.tree s) p i e ∧
    ∀ q, reach { s with mem := Radix.write s.mem f i e } q = reach s q := by
  obtain ⟨howned, hreach, hentry⟩ := h.owned.set hp he
  have heq : PageTables.tree { s with mem := Radix.write s.mem f i e } =
      update (PageTables.tree s) p i e := by
    funext q j
    exact hentry q j
  refine ⟨⟨howned, fun q g hq => h.used q g ((hreach q).symm.trans hq), h.root, ?_, h.released⟩,
    heq, hreach⟩
  rw [heq]
  exact htree

/-- A fresh table is hooked up where the entry was empty. -/
theorem addTable (h : Inv s M hole) (hp : reach s p = some f) (hlen : p.length ≤ 2)
    (h0 : s.mem f i = 0) {g : Word} (hg : IsFrame g) (hg0 : g ≠ 0) (hnew : g ∉ s.tables)
    (fl : Flags) (hhole : ∀ a b, p = [b, a] → hole = some (a, b, i)) :
    Inv (s.hook f i g fl) M hole ∧
    PageTables.tree (s.hook f i g fl) = update (PageTables.tree s) p i (entryOf g fl) := by
  have hunreached : ∀ q, reach s q ≠ some g := fun q hq => hnew (h.used q g hq)
  -- clearing the new table is outside the tree
  obtain ⟨howned₁, hreach₁, hentry₁⟩ := h.owned.frame (show ∀ q f' j,
      Radix.reach _ _ _ q = some f' → Radix.clear s.mem g f' j = s.mem f' j by
    intro q f' j hq
    refine if_neg fun he => hunreached q ?_
    rw [← he]
    exact hq)
  have hfg : f ≠ g := fun he => hunreached p (he ▸ hp)
  have hmem : Radix.clear s.mem g f i = 0 := (if_neg hfg).trans h0
  have htable : IsTable (entryOf g fl) := ⟨g, fl, hg, hg0, rfl⟩
  obtain ⟨howned, hreach, hentry⟩ := howned₁.relink (i := i) (e := entryOf g fl) sub_zero
    ((hreach₁ p).trans hp)
    (by
      intro g' hg'
      rw [hmem, sub_zero] at hg'
      exact absurd hg' (by simp))
    (by
      intro g' hg'
      rw [sub_table hlen htable, mask_entryOf hg, Option.some.injEq] at hg'
      subst hg'
      exact ⟨fun q hq => hunreached q ((hreach₁ q).symm.trans hq), fun j => if_pos rfl⟩)
  have heq : PageTables.tree (s.hook f i g fl) = update (PageTables.tree s) p i (entryOf g fl) := by
    funext q j
    refine (hentry q j).trans ?_
    by_cases hq : q = p ∧ j = i
    · rw [if_pos hq, update, if_pos hq]
    · rw [if_neg hq, update_of_ne hq]
      exact hentry₁ q j
  refine ⟨⟨howned, fun q g' hq => ?_, h.root, ?_, h.released⟩, heq⟩
  · have hq := (hreach q).symm.trans hq
    by_cases hqi : q = i :: p
    · rw [if_pos hqi, sub_table hlen htable, mask_entryOf hg, Option.some.injEq] at hq
      exact hq ▸ mem_cons_self
    · rw [if_neg hqi] at hq
      exact mem_cons_of_mem _ (h.used q g' ((hreach₁ q).symm.trans hq))
  · rw [heq]
    have hzero : PageTables.tree s p i = 0 := (tree_eq hp i).trans h0
    exact h.tree.setUpper hlen (.inl hzero) (.inr htable) (fun _ _ _ hc => absurd hzero hc.ne_zero)
      fun a b hab _ => hhole a b hab

/-- An empty table is cut off and released. -/
theorem cutTable (h : Inv s M hole) (hp : reach s p = some f) (hlen : p.length ≤ 2)
    (htable : IsTable (PageTables.tree s p i))
    {g : Word} (hg : maskPhysicalAddressFromEntry (PageTables.tree s p i) = g)
    (hempty : ∀ j, s.mem g j = 0) (htree : TreeInv (update (PageTables.tree s) p i 0) M hole') :
    Inv (s.cut f i g) M hole' ∧ PageTables.tree (s.cut f i g) = update (PageTables.tree s) p i 0 := by
  have hsub : sub p.length (s.mem f i) = some g := by
    rw [← tree_eq hp i, ← hg]
    exact sub_table hlen htable
  obtain ⟨howned, hreach, hentry⟩ := h.owned.relink (i := i) (e := 0) sub_zero hp
    (by
      intro g' hg'
      exact Option.some.inj (hsub.symm.trans hg') ▸ hempty)
    (by
      intro g' hg'
      rw [sub_zero] at hg'
      exact absurd hg' (by simp))
  have heq : PageTables.tree (s.cut f i g) = update (PageTables.tree s) p i 0 := by
    funext q j
    exact hentry q j
  refine ⟨⟨howned, fun q g' hq => ?_, h.root, ?_, fun c hc => ?_⟩, heq⟩
  · replace hq := (hreach q).symm.trans hq
    by_cases hqi : q = i :: p
    · rw [if_pos hqi, sub_zero] at hq
      cases hq
    · rw [if_neg hqi] at hq
      refine (mem_erase_of_ne ?_).mpr (h.used q g' hq)
      rintro rfl
      exact hqi (h.owned q (i :: p) _ hq (hg ▸ reach_of_table hlen htable))
  · rw [heq]
    exact htree
  · obtain rfl | hc := mem_cons.mp hc
    · exact hempty
    · exact h.released c hc

/-! ### Reading the tables -/

theorem reach_root (s : State) : reach s [] = some s.cr3 := rfl

theorem getPML4 (h : Inv s M hole) (va : Word) :
    getPML4Entry s.mem s.cr3 va = entryAt s va 3 := by
  rw [getPML4Entry, if_neg h.root.2, h.root.1.mask_self]
  exact (tree_eq (reach_root s) _).symm

/-- The entry below an entry that is empty or points to a table. -/
theorem getSub (va : Word) (l : ℕ) (hlen : p.length ≤ 2)
    (ht : PageTables.tree s p i = 0 ∨ IsTable (PageTables.tree s p i)) :
    getSubEntry s.mem (PageTables.tree s p i) va l =
      PageTables.tree s (i :: p) (addressToIndex va l) := by
  obtain h0 | ht := ht
  · rw [tree_of_zero h0, h0]
    rfl
  · rw [tree_eq (reach_of_table hlen ht)]
    exact if_neg ht.mask_ne_zero

theorem getPML3 (h : Inv s M hole) (va : Word) :
    getPML3Entry s.mem s.cr3 va = entryAt s va 2 := by
  rw [getPML3Entry, h.getPML4]
  exact getSub va 2 (by simp [pathTo]) (h.tree.top _ _ (by simp [pathTo]))

theorem getPML2 (h : Inv s M hole) (va : Word) :
    getPML2Entry s.mem s.cr3 va = entryAt s va 1 := by
  rw [getPML2Entry, h.getPML3]
  exact getSub va 1 (by simp [pathTo]) (h.tree.top _ _ (by simp [pathTo]))

theorem getPageMapEntry (h : Inv s M hole) (va : Word) {l : ℕ} (hl : 1 ≤ l ∧ l ≤ 3) :
    getPageMapEntryForDepth s.mem s.cr3 va l = entryAt s va l := by
  match l, hl with
  | 1, _ => exact h.getPML2 va
  | 2, _ => exact h.getPML3 va
  | 3, _ => exact h.getPML4 va

/-! ### Creating the tables of an address -/

/-- What a round of `Arch_AllocatePageMapAt` leaves: the entry points to a table
and covers the new page, and no other entry changed. -/
structure Allocated (s s' : State) (p : List (Fin 512)) (i : Fin 512) (fl : Flags) : Prop where
  table : IsTable (PageTables.tree s' p i)
  covers : Covers (PageTables.tree s' p i) fl
  other : ∀ q j, ¬ (q = p ∧ j = i) → PageTables.tree s' q j = PageTables.tree s q j

theorem Allocated.of_tree {s' : State} {fl : Flags}
    (htree : PageTables.tree s' = update (PageTables.tree s) p i e) (ht : IsTable e)
    (hc : Covers e fl) : Allocated s s' p i fl := by
  refine ⟨?_, ?_, fun q j hq => ?_⟩
  · rwa [htree, update_self]
  · rwa [htree, update_self]
  · rw [htree, update_of_ne hq]

/-- The entries of the other levels stay. -/
theorem Allocated.level {s' : State} {va : Word} {l : ℕ} {fl : Flags}
    (h : Allocated s s' (pathTo va l) i fl) {k : ℕ}
    (hk : (pathTo va k).length ≠ (pathTo va l).length) : entryAt s' va k = entryAt s va k :=
  h.other _ _ fun hq => hk (congrArg List.length hq.1)

theorem pathTo_pred (va : Word) {l : ℕ} (hl : 1 ≤ l ∧ l ≤ 3) :
    addressToIndex va l :: pathTo va l = pathTo va (l - 1) := by
  match l, hl with
  | 1, _ => rfl
  | 2, _ => rfl
  | 3, _ => rfl

theorem pathTo_length (va : Word) {l : ℕ} (hl : 1 ≤ l ∧ l ≤ 3) : (pathTo va l).length ≤ 2 := by
  match l, hl with
  | 1, _ => simp [pathTo]
  | 2, _ => simp [pathTo]
  | 3, _ => simp [pathTo]

/-- The table of a level, as the code finds it. -/
theorem pageMap_eq (h : Inv s M hole) (va : Word) {l : ℕ} (hl : 1 ≤ l ∧ l ≤ 3)
    (hreach : reach s (pathTo va l) = some f) :
    (if l + 1 = 4 then s.cr3
      else maskPhysicalAddressFromEntry (getPageMapEntryForDepth s.mem s.cr3 va (l + 1))) = f := by
  by_cases h3 : l + 1 = 4
  · obtain rfl : l = 3 := by omega
    rw [if_pos h3]
    exact Option.some.inj hreach
  · rw [if_neg h3, h.getPageMapEntry va (by omega)]
    have hpred : addressToIndex va (l + 1) :: pathTo va (l + 1) = pathTo va l :=
      pathTo_pred va (by omega)
    rw [← hpred, reach_cons] at hreach
    have htop : (pathTo va (l + 1)).length < 2 := by
      match l, hl with
      | 1, _ => simp [pathTo]
      | 2, _ => simp [pathTo]
    obtain h0 | ht := h.tree.top _ (addressToIndex va (l + 1)) htop
    · rw [h0, sub_zero] at hreach
      cases hreach
    · rw [sub_table (by omega) ht] at hreach
      exact Option.some.inj hreach

theorem allocateLevel (h : Inv s M hole) (va : Word) {l n : ℕ} (hl : 1 ≤ l ∧ l ≤ 3)
    (hreach : reach s (pathTo va l) = some f) (fl : Flags)
    (hold : entryAt s va l = 0 ∨ IsTable (entryAt s va l)) (hfresh : Fresh s frames)
    (hn : n + 1 ≤ frames.length) (hhole : l = 1 → hole = holeAt va) :
    ∃ s' frames', PageTables.allocateLevel va fl.entry (s, frames) l = (s', frames') ∧
      Inv s' M hole ∧ Fresh s' frames' ∧ n ≤ frames'.length ∧
      Allocated s s' (pathTo va l) (addressToIndex va l) fl := by
  have hlen := pathTo_length va hl
  have hhole' : ∀ a b, pathTo va l = [b, a] → hole = some (a, b, addressToIndex va l) := by
    intro a b hab
    obtain rfl | rfl | rfl : l = 1 ∨ l = 2 ∨ l = 3 := by omega
    · cases hab
      exact hhole rfl
    · cases hab
    · cases hab
  rw [PageTables.allocateLevel]
  simp only [h.pageMap_eq va hl hreach]
  by_cases h0 : s.mem f (addressToIndex va l) = 0
  · -- a fresh table
    rw [if_pos h0]
    cases frames with
    | nil => simp at hn
    | cons g frames =>
      obtain ⟨hnd, hfr⟩ := hfresh
      obtain ⟨hg, hg0, hgn⟩ := hfr g mem_cons_self
      obtain ⟨hinv, htree⟩ := h.addTable hreach hlen h0 hg hg0 hgn fl hhole'
      refine ⟨s.hook f (addressToIndex va l) g fl, frames, rfl, hinv,
        ⟨(nodup_cons.mp hnd).2, fun f' hf' => ?_⟩, ?_,
        .of_tree htree ⟨g, fl, hg, hg0, rfl⟩ (covers_self hg)⟩
      · obtain ⟨h1, h2, h3⟩ := hfr f' (mem_cons_of_mem _ hf')
        refine ⟨h1, h2, fun hm => ?_⟩
        obtain rfl | hm := mem_cons.mp hm
        · exact (nodup_cons.mp hnd).1 hf'
        · exact h3 hm
      · simpa using hn
  · -- the flags of the new page are merged into the entry
    rw [if_neg h0]
    have ht := hold.resolve_left ((tree_eq hreach _).trans_ne h0)
    obtain ⟨g, fl₀, hg, hg0, he⟩ := id ht
    have hentry : s.mem f (addressToIndex va l) = entryOf g fl₀ := by
      rw [← tree_eq hreach]
      exact he
    have hmerge : mergeFlags (s.mem f (addressToIndex va l)) fl.entry =
        entryOf g (fl₀.join fl) := by
      rw [hentry, mergeFlags_entryOf hg]
    have hnew : IsTable (entryOf g (fl₀.join fl)) := ⟨g, _, hg, hg0, rfl⟩
    have hsub : sub (pathTo va l).length (entryOf g (fl₀.join fl)) =
        sub (pathTo va l).length (s.mem f (addressToIndex va l)) := by
      rw [hentry, sub_table hlen hnew, sub_table hlen ⟨g, fl₀, hg, hg0, rfl⟩, mask_entryOf hg,
        mask_entryOf hg]
    obtain ⟨hcov, hmono⟩ := @covers_join g fl₀ fl hg
    obtain ⟨hinv, htree, -⟩ := h.write hreach hsub (h.tree.setUpper hlen (.inr ht) (.inr hnew)
      (fun fl' _ _ hc => hmono fl' (he ▸ hc)) fun a b hab _ => hhole' a b hab)
    rw [hmerge]
    exact ⟨_, frames, rfl, hinv, hfresh, by omega, .of_tree htree hnew hcov⟩

/-- The tables of the first two levels of an address. -/
theorem allocateTwo (h : Inv s M hole) (va : Word) (fl : Flags) (hfresh : Fresh s frames) {n : ℕ}
    (hn : n + 2 ≤ frames.length) :
    ∃ s' frames', [3, 2].foldl (PageTables.allocateLevel va fl.entry) (s, frames) = (s', frames') ∧
      Inv s' M hole ∧ Fresh s' frames' ∧ n ≤ frames'.length ∧
      Covers (entryAt s' va 3) fl ∧ IsTable (entryAt s' va 2) ∧ Covers (entryAt s' va 2) fl := by
  obtain ⟨s₁, frames₁, he₁, h₁, hf₁, hn₁, ha₁⟩ := h.allocateLevel va (l := 3) (by simp)
    (reach_root s) fl (h.tree.top _ _ (by simp [pathTo])) hfresh (n := n + 1) (by omega) (by simp)
  have hr₁ := reach_of_table (by simp [pathTo]) ha₁.table
  obtain ⟨s₂, frames₂, he₂, h₂, hf₂, hn₂, ha₂⟩ := h₁.allocateLevel va (l := 2) (by simp) hr₁ fl
    (h₁.tree.top _ _ (by simp [pathTo])) hf₁ hn₁ (by simp)
  refine ⟨s₂, frames₂, ?_, h₂, hf₂, hn₂, ?_, ha₂.table, ha₂.covers⟩
  · rw [foldl_cons, foldl_cons, foldl_nil, he₁, he₂]
  · rw [ha₂.level (by simp [pathTo])]
    exact ha₁.covers

/-- All tables of an address, below an entry that is no huge page. -/
theorem allocateThree (va : Word)
    (h : Inv s M (holeAt va)) (fl : Flags) (hfresh : Fresh s frames) (hn : 3 ≤ frames.length)
    (hhuge : M.huge (pageIn va 0) = none) :
    ∃ s' pt, allocatePageMapAt s frames va fl.entry 3 = (s', pt) ∧
      Inv s' M (holeAt va) ∧ reach s' (pathTo va 0) = some pt ∧ Covers (entryAt s' va 3) fl ∧
      Covers (entryAt s' va 2) fl ∧ Covers (entryAt s' va 1) fl ∧ entryAt s' va 1 &&& 0x80#64 = 0 := by
  obtain ⟨s₂, frames₂, he₂, h₂, hf₂, hn₂, hc₃, ht₂, hc₂⟩ := h.allocateTwo va fl hfresh (n := 1) hn
  have hr₂ := reach_of_table (by simp [pathTo]) ht₂
  obtain ⟨s₁, frames₁, he₁, h₁, -, -, ha₁⟩ := h₂.allocateLevel va (l := 1) (by simp) hr₂ fl
    (h₂.tree.notHuge _ _ _ hhuge) hf₂ (n := 0) hn₂ fun _ => rfl
  have hfold : [3, 2, 1].foldl (PageTables.allocateLevel va fl.entry) (s, frames) =
      (s₁, frames₁) := by
    rw [show [3, 2, 1] = [3, 2] ++ [1] from rfl, foldl_append, he₂, foldl_cons,
      foldl_nil, he₁]
  refine ⟨s₁, _, ?_, h₁, reach_of_table (by simp) ha₁.table, ?_, ?_, ha₁.covers,
    ha₁.table.not_huge⟩
  · rw [allocatePageMapAt]
    simp only [fl.tableFlags_entry, List.take, hfold]
    rw [h₁.getPageMapEntry va (l := 4 - 3) (by simp)]
    rfl
  · rwa [ha₁.level (by simp [pathTo])]
  · rwa [ha₁.level (by simp [pathTo])]

end Inv

/-! ### Mapping -/

theorem and_not_eq {x m : Word} (h : x &&& m = 0) : x &&& ~~~ m = x := by
  refine BitVec.eq_of_getLsbD_eq fun i hi => ?_
  have hbit : (x &&& m).getLsbD i = false := by
    rw [h]
    exact BitVec.getLsbD_zero
  rw [BitVec.getLsbD_and] at hbit
  rw [BitVec.getLsbD_and, BitVec.getLsbD_not]
  cases hx : x.getLsbD i <;> simp_all

variable {s : State} {M : PageMap} {hole : Option (Fin 512 × Fin 512 × Fin 512)}
  {frames : List Word} {at' phys : Word}

/-- An aligned canonical address is the address of the page of its indices. -/
theorem pageAddr_of_aligned (hc : isCanonical at' = true) (ha : at' &&& 0xfff#64 = 0) :
    pageIn at' (addressToIndex at' 0) = at' := by
  rw [pageAddr_eq hc]
  exact and_not_eq ha

theorem hugeAddr_of_aligned (hc : isCanonical at' = true) (ha : at' &&& 0x1fffff#64 = 0) :
    pageIn at' 0 = at' := by
  rw [hugeAddr_eq hc]
  exact and_not_eq ha

theorem pageAddr_add (a b c d : Fin 512) :
    pageAddr a b c 0 + BitVec.ofNat 64 (d.val * pageSize) = pageAddr a b c d := by
  rw [← BitVec.toNat_inj, BitVec.toNat_add, BitVec.toNat_ofNat, pageAddr_toNat, pageAddr_toNat]
  simp only [Fin.val_zero, pageSize]
  split <;> split <;> omega

theorem inv_map (nxe : Bool) (h : Inv s M none) (hc : isCanonical at' = true)
    (ha : at' &&& 0xfff#64 = 0) (hphys : IsFrame phys) (hfresh : FreshFrames s frames)
    (hhuge : M.huge (hugeBase at') = none) (fl : Flags) :
    Inv (mapPage nxe s frames at' phys fl.word).1 (M.map nxe at' phys fl) none := by
  obtain ⟨hlen, hnd, hfr⟩ := hfresh
  have hargs : ¬ ((!isCanonical at') = true ∨ phys &&& 0xfff#64 ≠ 0 ∨ at' &&& 0xfff#64 ≠ 0) := by
    rw [hc, hphys.and_eq_zero (by decide)]
    simp [ha]
  rw [← hugeAddr_eq hc] at hhuge
  have hopen : Inv s M (holeAt at') := { h with tree := h.tree.open_hole }
  obtain ⟨s', pt, hs', h', hreach, hc3, hc2, hc1, hn⟩ :=
    Inv.allocateThree at' hopen (fl.allowed nxe) ⟨hnd, hfr⟩ hlen.ge hhuge
  rw [mapPage, if_neg hargs]
  simp only [fl.leafFlags_word, hphys.mask_self, hs']
  have hset := h'.tree.setSmall (d := addressToIndex at' 0) (x := some ⟨phys, fl.allowed nxe⟩)
    (by
      rintro m ⟨⟩
      exact ⟨hphys, hc3, hc2, hc1, hn⟩)
  rw [← pageIn, pageAddr_of_aligned hc ha] at hset
  refine (h'.write (i := addressToIndex at' 0) (e := entryOf phys (fl.allowed nxe)) hreach rfl
    (hset.close_hole fun _ => ⟨addressToIndex at' 0, ?_⟩)).1
  rw [update_self]
  exact entryOf_ne_zero hphys

theorem inv_mapHuge (nxe : Bool) (h : Inv s M none) (hc : isCanonical at' = true)
    (ha : at' &&& 0x1fffff#64 = 0) (hphys : phys &&& 0xfffffffe00000#64 = phys)
    (hfresh : FreshFrames s frames)
    (hsmall : ∀ i : Fin 512, M.small (at' + BitVec.ofNat 64 (i.val * pageSize)) = none)
    (fl : Flags) :
    Inv (mapHugePage nxe s frames at' phys fl.word).1 (M.mapHuge nxe at' phys fl) none := by
  obtain ⟨hlen, hnd, hfr⟩ := hfresh
  have hframe := isFrame_of_huge hphys
  have hlow : phys &&& 0x1fffff#64 = 0 := by
    rw [← hphys, BitVec.and_assoc]
    exact BitVec.and_zero
  have hargs : ¬ ((!isCanonical at') = true ∨ phys &&& 0x1fffff#64 ≠ 0 ∨
      at' &&& 0x1fffff#64 ≠ 0) := by
    rw [hc, hlow]
    simp [ha]
  have hat := hugeAddr_of_aligned hc ha
  have hnone : ∀ d, M.small (pageIn at' d) = none := by
    intro d
    rw [pageIn, ← pageAddr_add, ← pageIn, hat]
    exact hsmall d
  obtain ⟨s', frames', hs', h', -, -, hc3, ht2, hc2⟩ :=
    h.allocateTwo at' (fl.allowed nxe) ⟨hnd, hfr⟩ (n := 1) hlen.ge
  have hreach := reach_of_table (by simp [pathTo]) ht2
  have halloc : allocatePageMapAt s frames at' (fl.allowed nxe).entry 2 =
      (s', maskPhysicalAddressFromEntry (entryAt s' at' 2)) := by
    rw [allocatePageMapAt]
    simp only [Flags.tableFlags_entry, List.take, hs']
    rw [h'.getPageMapEntry at' (l := 4 - 2) (by simp)]
  rw [mapHugePage, if_neg hargs]
  simp only [fl.leafFlags_word, Flags.entry_huge, ne_eq, not_true_eq_false, if_false,
    hframe.mask_self, halloc]
  -- the entry was empty or a huge page: a table would have a page in use
  have hsub : sub 2 (entryAt s' at' 1) = none := by
    cases hm : M.huge (pageIn at' 0) with
    | some m =>
      have he : entryAt s' at' 1 = _ := h'.tree.huge _ _ _ m hm
      rw [he]
      exact sub_huge (huge_hugeEntryOf (h'.tree.isFrame_huge hm))
    | none =>
      obtain h0 | ht : entryAt s' at' 1 = 0 ∨ _ := h'.tree.notHuge _ _ _ hm
      · rw [h0, sub_zero]
      · obtain ⟨d, hd⟩ := h'.tree.nonempty _ _ _ (by simp) ht
        rw [h'.tree.small, ← pageIn, hnone d] at hd
        exact absurd rfl hd
  have hset := h'.tree.setHuge (x := some ⟨phys, fl.allowed nxe⟩) hnone (by
    rintro m ⟨⟩
    exact ⟨hphys, hc3, hc2⟩)
  rw [← pageIn, hat] at hset
  refine (h'.write hreach ?_ hset).1
  exact (sub_huge (huge_hugeEntryOf hframe)).trans (tree_eq hreach _ ▸ hsub.symm)

/-! ### Unmapping -/

/-- Above an entry in use there is a table. -/
theorem isTable_above (h : Inv s M hole) (hp : p.length < 2) (hne : tree s (i :: p) j ≠ 0) :
    IsTable (tree s p i) :=
  (h.tree.top p i hp).resolve_left fun h0 => hne (tree_of_zero h0 j)

/-- A round of `Arch_FreePageMapAt` below a table. -/
theorem freeLevel_eq (h : Inv s M hole) (va : Word) {l : ℕ} (hl : 1 ≤ l ∧ l ≤ 2) {f : Word}
    (hf : reach s (pathTo va l) = some f) (ht : IsTable (entryAt s va (l + 1))) :
    freeLevel va s l =
      if ∀ j, s.mem (maskPhysicalAddressFromEntry (entryAt s va l)) j = 0
      then s.cut f (addressToIndex va l) (maskPhysicalAddressFromEntry (entryAt s va l))
      else s := by
  have hmask : maskPhysicalAddressFromEntry (entryAt s va (l + 1)) = f := by
    have hreach := reach_of_table (Inv.pathTo_length va (by omega)) ht
    have hpred : addressToIndex va (l + 1) :: pathTo va (l + 1) = pathTo va l :=
      Inv.pathTo_pred va (by omega)
    rw [hpred, hf] at hreach
    exact (Option.some.inj hreach).symm
  rw [freeLevel]
  simp only [h.getPageMapEntry va (l := l + 1) (by omega), hmask, entryAt, tree_eq hf]
  rw [if_neg ht.present]
  rfl

/-- The round for the last level closes the hole: the table there is cut off, or
has an entry in use. -/
theorem inv_freeLast (va : Word) (h : Inv s M (holeAt va)) (ht : IsTable (entryAt s va 1)) :
    Inv (freeLevel va s 1) M none ∧ IsTable (entryAt (freeLevel va s 1) va 2) := by
  have ht2 : IsTable (entryAt s va 2) := isTable_above h (by simp [pathTo]) ht.ne_zero
  have hr2 := reach_of_table (by simp [pathTo]) ht2
  have hr1 := reach_of_table (by simp [pathTo]) ht
  rw [freeLevel_eq h va (l := 1) (by simp) hr2 ht2]
  by_cases hempty : ∀ j, s.mem (maskPhysicalAddressFromEntry (entryAt s va 1)) j = 0
  · rw [if_pos hempty]
    have hclear := h.tree.clear (by simp [pathTo]) ht fun d => (tree_eq hr1 d).trans (hempty d)
    replace hclear := hclear.close_hole fun h0 => absurd update_self h0.ne_zero
    obtain ⟨hinv, htree⟩ := h.cutTable hr2 (by simp [pathTo]) ht rfl hempty hclear
    exact ⟨hinv, ht2.of_update htree (by simp [pathTo])⟩
  · rw [if_neg hempty]
    obtain ⟨d, hd⟩ := not_forall.mp hempty
    exact ⟨⟨h.owned, h.used, h.root, h.tree.close_hole fun _ => ⟨d, (tree_eq hr1 d).trans_ne hd⟩,
      h.released⟩, ht2⟩

/-- The round for the tables of the second level does nothing. -/
theorem freeLevel_three (va : Word) (s : State) : freeLevel va s 3 = s := by
  rw [freeLevel]
  exact if_pos BitVec.zero_and

/-- The rounds behind the one for the last level. -/
theorem inv_freeThird (va : Word) (h : Inv s M none) (ht : IsTable (entryAt s va 2)) :
    Inv (freeLevel va (freeLevel va s 2) 3) M none := by
  have ht3 := isTable_above h (by simp) ht.ne_zero
  have hr3 := reach_of_table (by simp) ht3
  have hr2 := reach_of_table (by simp [pathTo]) ht
  rw [freeLevel_three, freeLevel_eq h va (l := 2) (by simp) hr3 ht3]
  by_cases hempty : ∀ j, s.mem (maskPhysicalAddressFromEntry (entryAt s va 2)) j = 0
  · rw [if_pos hempty]
    have hclear := h.tree.clear (by simp [pathTo]) ht fun c => (tree_eq hr2 c).trans (hempty c)
    exact (h.cutTable hr3 (by simp) ht rfl hempty hclear).1
  · rw [if_neg hempty]
    exact h

theorem inv_unmap (h : Inv s M none) (hc : isCanonical at' = true) (ha : at' &&& 0xfff#64 = 0) :
    Inv (unmapPage s at').1 (M.unmap at') none := by
  have hargs : ¬ ((!isCanonical at') = true ∨ at' &&& 0xfff#64 ≠ 0) := by
    rw [hc]
    simp [ha]
  have hsmallAddr := pageAddr_of_aligned hc ha
  rw [unmapPage, if_neg hargs, PageMap.unmap, ← hugeAddr_eq hc]
  simp only [h.getPML2 at', h.getPML3 at']
  cases hm : M.huge (pageIn at' 0) with
  | some m =>
    -- a huge page: its entry is in the third level
    have hframe := h.tree.isFrame_huge hm
    have he : entryAt s at' 1 = _ := h.tree.huge _ _ _ m hm
    have ht2 : IsTable (entryAt s at' 2) :=
      isTable_above h (by simp [pathTo]) (he.trans_ne (hugeEntryOf_ne_zero hframe))
    have hr2 := reach_of_table (by simp [pathTo]) ht2
    have hhuge : hugeEntryOf m.phys m.flags &&& 0x80#64 ≠ 0 := huge_hugeEntryOf hframe
    rw [he, if_neg (present_hugeEntryOf hframe)]
    simp only [if_pos hhuge]
    rw [if_neg ht2.present]
    have hsmall : ∀ d, M.small (pageIn at' d) = none := by
      intro d
      cases hd : M.small (pageIn at' d) with
      | none => rfl
      | some x => exact absurd (he ▸ (h.tree.coverSmall _ _ _ d x hd).2.2.2) hhuge
    have hset := h.tree.setHuge (x := none) hsmall (by simp)
    obtain ⟨hinv, htree, -⟩ := h.write (i := addressToIndex at' 1) (e := 0) hr2
      (by rw [← tree_eq hr2]; exact (he ▸ sub_huge hhuge).symm) hset
    exact inv_freeThird at' hinv (ht2.of_update htree (by simp [pathTo]))
  | none =>
    obtain h0 | ht : entryAt s at' 1 = 0 ∨ IsTable (entryAt s at' 1) := h.tree.notHuge _ _ _ hm
    · -- nothing is mapped here
      rw [h0, if_pos (c := 0 &&& 1#64 = (0 : Word)) BitVec.zero_and]
      have hnone : M.small at' = none := by
        rw [← hsmallAddr]
        exact h.tree.small_eq_none (tree_of_zero h0 _)
      rw [PageMap.setSmall_same hnone]
      exact h
    · have hr1 := reach_of_table (by simp [pathTo]) ht
      rw [if_neg ht.present]
      simp only [ht.not_huge, ne_eq, not_true_eq_false, if_false]
      rw [if_neg ht.present]
      have hopen : Inv s M (holeAt at') := { h with tree := h.tree.open_hole }
      have hset := hopen.tree.setSmall (d := addressToIndex at' 0) (x := none) (by simp)
      rw [← pageIn, hsmallAddr] at hset
      obtain ⟨hinv, htree, -⟩ := hopen.write (i := addressToIndex at' 0) (e := 0) hr1 rfl hset
      obtain ⟨hinv₁, ht2⟩ := inv_freeLast at' hinv (ht.of_update htree (by simp [pathTo]))
      exact inv_freeThird at' hinv₁ ht2

/-! ### The walk -/

/-- Below an entry that is not present nothing is mapped. -/
theorem lookup_eq_none (h : Inv s M none) {a b c d : Fin 512}
    (h0 : tree s [] a &&& 1#64 = 0 ∨ tree s [a] b &&& 1#64 = 0) :
    M.huge (pageAddr a b c 0) = none ∧ M.small (pageAddr a b c d) = none := by
  constructor <;> refine Option.eq_none_iff_forall_ne_some.mpr fun m hm => ?_
  · obtain ⟨hc4, hc3⟩ := h.tree.coverHuge a b c m hm
    exact h0.elim hc4.present hc3.present
  · obtain ⟨hc4, hc3, -⟩ := h.tree.coverSmall a b c d m hm
    exact h0.elim hc4.present hc3.present

theorem walk_eq (h : Inv s M none) {va : Word} (hc : isCanonical va = true) :
    walk s.mem s.cr3 va = M.lookup va := by
  rw [PageMap.lookup, ← hugeAddr_eq hc, ← pageAddr_eq hc, walk]
  simp only [← tree_eq (Inv.reach_root s), pageIn]
  generalize addressToIndex va 3 = a, addressToIndex va 2 = b, addressToIndex va 1 = c,
    addressToIndex va 0 = d
  by_cases h4 : tree s [] a &&& 1#64 = 0
  · obtain ⟨hm, hs⟩ := lookup_eq_none h (b := b) (c := c) (d := d) (.inl h4)
    rw [if_pos h4, hm, hs]
    rfl
  have ht4 : IsTable (tree s [] a) :=
    (h.tree.top _ _ (by simp)).resolve_left fun h0 => h4 (by rw [h0]; exact BitVec.zero_and)
  rw [if_neg h4]
  simp only [mem_below (by simp) ht4]
  by_cases h3 : tree s [a] b &&& 1#64 = 0
  · obtain ⟨hm, hs⟩ := lookup_eq_none h (c := c) (d := d) (.inr h3)
    rw [if_pos h3, hm, hs]
    rfl
  have ht3 : IsTable (tree s [a] b) :=
    (h.tree.top _ _ (by simp)).resolve_left fun h0 => h3 (by rw [h0]; exact BitVec.zero_and)
  rw [if_neg h3]
  simp only [mem_below (by simp) ht3]
  cases hm : M.huge (pageAddr a b c 0) with
  | some m =>
    -- a huge page ends the walk
    have hframe := h.tree.isFrame_huge hm
    obtain ⟨hc4, hc3⟩ := h.tree.coverHuge _ _ _ m hm
    rw [h.tree.huge _ _ _ m hm, if_neg (present_hugeEntryOf hframe),
      if_pos (huge_hugeEntryOf hframe), mask_hugeEntryOf (h.tree.hugeFrame _ m hm)]
    have hrights := @rights_eq m.flags [tree s [] a, tree s [a] b] (hugeEntryOf m.phys m.flags)
      (by simp [hc4, hc3]) fun w hw => hugeEntryOf_and hframe hw
    exact congrArg (fun r => some (Translation.mk true m.phys r)) hrights
  | none =>
    obtain h0 | ht2 := h.tree.notHuge _ _ _ hm
    · rw [h0, if_pos (c := 0 &&& 1#64 = (0 : Word)) BitVec.zero_and,
        h.tree.small_eq_none (tree_of_zero h0 _)]
      rfl
    rw [if_neg ht2.present, if_neg (not_not.mpr ht2.not_huge)]
    simp only [mem_below (by simp) ht2, h.tree.small]
    cases hs : M.small (pageAddr a b c d) with
    | none => exact if_pos BitVec.zero_and
    | some m =>
      have hframe := h.tree.smallFrame _ m hs
      obtain ⟨hc4, hc3, hc2, -⟩ := h.tree.coverSmall _ _ _ _ m hs
      have hrights := @rights_eq m.flags [tree s [] a, tree s [a] b, tree s [b, a] c]
        (entryOf m.phys m.flags) (by simp [hc4, hc3, hc2])
        fun w hw => entryOf_and hframe (outside_frame hw)
      rw [smallWord, if_neg (present_entryOf hframe), mask_entryOf hframe]
      exact congrArg (fun r => some (Translation.mk false m.phys r)) hrights

/-! ### Runs -/

/-- The tables implement the map: every walk is a lookup, every table that is
reached is in use, and every table was empty when it was released. -/
structure Agrees (x : System) : Prop where
  walk : ∀ va, isCanonical va = true →
    walk x.tables.mem x.tables.cr3 va = x.map.lookup va
  inUse : ∀ p f, reach x.tables p = some f → f ∈ x.tables.tables
  released : ∀ c ∈ x.tables.released, ∀ i, c i = 0

theorem Inv.agrees {x : System} (h : Inv x.tables x.map none) : Agrees x :=
  ⟨fun _ hc => walk_eq h hc, h.used, h.released⟩

theorem tree_start {mem : Tables} {cr3 : Word} (hzero : ∀ i, mem cr3 i = 0) (p : List (Fin 512))
    (i : Fin 512) : tree (start mem cr3).tables p i = 0 := by
  induction p generalizing i with
  | nil => exact hzero i
  | cons j p ih => exact tree_of_zero (ih j) i

theorem inv_start {mem : Tables} {cr3 : Word} (hframe : IsFrame cr3) (hne : cr3 ≠ 0)
    (hzero : ∀ i, mem cr3 i = 0) :
    Inv (start mem cr3).tables (start mem cr3).map none := by
  have htree := tree_start hzero
  have hroot : ∀ p f, reach (start mem cr3).tables p = some f → p = [] ∧ f = cr3 := by
    intro p f hp
    cases p with
    | nil => exact ⟨rfl, (Option.some.inj hp).symm⟩
    | cons i p =>
      rw [reach_cons, htree, sub_zero] at hp
      cases hp
  refine ⟨fun p q f hp hq => ?_, fun p f hp => ?_, ⟨hframe, hne⟩, ?_, by simp [start]⟩
  · rw [(hroot p f hp).1, (hroot q f hq).1]
  · rw [(hroot p f hp).2]
    exact mem_cons_self
  · refine ⟨fun p i _ => Or.inl (htree p i), by simp [start, PageMap.empty],
      fun a b c _ => Or.inl (htree _ _), fun a b c d => htree _ _, by simp [start, PageMap.empty],
      by simp [start, PageMap.empty], by simp [start, PageMap.empty],
      by simp [start, PageMap.empty], fun a b c _ ht => absurd (htree _ _) ht.ne_zero⟩

theorem inv_step (nxe : Bool) {x : System} (op : Op) (h : Inv x.tables x.map none)
    (hok : Valid x op) :
    ∃ y, step nxe x op = some y ∧ Inv y.tables y.map none := by
  cases op with
  | map frames at' phys fl =>
    obtain ⟨hc, ha, hp, hf, hh⟩ := hok
    exact ⟨_, rfl, inv_map nxe h hc ha hp hf hh fl⟩
  | mapHuge frames at' phys fl =>
    obtain ⟨hc, ha, hp, hf, hs⟩ := hok
    exact ⟨_, rfl, inv_mapHuge nxe h hc ha hp hf hs fl⟩
  | unmap at' => exact ⟨_, rfl, inv_unmap h hok.1 hok.2⟩

/-- A call changes the lookup in its own page only. -/
theorem lookup_step (nxe : Bool) {x y : System} {op : Op} (hy : step nxe x op = some y) {va : Word}
    (hva : ¬ Touches x op va) : y.map.lookup va = x.map.lookup va := by
  cases op with
  | map frames at' phys fl =>
    cases hy
    exact PageMap.lookup_setSmall hva
  | mapHuge frames at' phys fl =>
    cases hy
    exact PageMap.lookup_setHuge hva
  | unmap at' =>
    cases hy
    rw [Touches] at hva
    rw [PageMap.unmap]
    cases hm : x.map.huge (hugeBase at') with
    | some m =>
      rw [hm, Option.isSome_some, if_pos rfl] at hva
      exact PageMap.lookup_setHuge hva
    | none =>
      rw [hm, Option.isSome_none, if_neg (by simp)] at hva
      exact PageMap.lookup_setSmall hva

/-- After every run of valid calls on an empty root table, and after one more
call, the tables implement the map that the same calls build; the last call
leaves the translation and the rights of every other page unchanged. -/
theorem refines_run (nxe : Bool) {mem : Tables} {cr3 : Word} (hframe : IsFrame cr3)
    (hne : cr3 ≠ 0) (hzero : ∀ i, mem cr3 i = 0) {ops : List Op} {op : Op}
    (hops : Run.Meets Valid (step nxe) (start mem cr3) (ops ++ [op])) :
    ∃ x y, ops.foldlM (step nxe) (start mem cr3) = some x ∧ step nxe x op = some y ∧
      Agrees x ∧ Agrees y ∧
      ∀ va, isCanonical va = true → ¬ Touches x op va →
        walk y.tables.mem y.tables.cr3 va = walk x.tables.mem x.tables.cr3 va := by
  obtain ⟨hrun, hlast⟩ := hops.append
  obtain ⟨x, hx, hI⟩ := Run.invariant (I := fun x : System => Inv x.tables x.map none)
    (fun x op h hok => inv_step nxe op h hok) (inv_start hframe hne hzero) hrun
  obtain ⟨y, hy, hJ⟩ := inv_step nxe op hI (hlast x hx).1
  refine ⟨x, y, hx, hy, hI.agrees, hJ.agrees, fun va hva hno => ?_⟩
  rw [walk_eq hI hva, walk_eq hJ hva, lookup_step nxe hy hno]

/-- A page, a huge page next to it, and the page again. -/
theorem refines_run_three :
    ∃ x y, [Op.map [0x2000#64, 0x3000#64, 0x4000#64] 0x1000#64 0x9000#64 ⟨true, false, true⟩,
        .mapHuge [0x5000#64, 0x6000#64, 0x7000#64] 0x200000#64 0x400000#64
          ⟨false, true, false⟩].foldlM (step true) (start (fun _ _ => 0) 0x1000#64) = some x ∧
      step true x (.unmap 0x1000#64) = some y ∧ Agrees x ∧ Agrees y ∧
      ∀ va, isCanonical va = true → ¬ Touches x (.unmap 0x1000#64) va →
        walk y.tables.mem y.tables.cr3 va = walk x.tables.mem x.tables.cr3 va := by
  refine refines_run true (by decide +kernel) (by decide) (fun _ => rfl) ⟨by decide +kernel, ?_⟩
  intro x hx
  cases hx
  -- the first call has put its three tables in use
  refine ⟨⟨by decide, by decide, by decide, by decide +kernel, ?_⟩, fun y _ => ?_⟩
  · intro i
    exact PageMap.small_setSmall_of_ne (by revert i; decide +kernel)
  · exact ⟨⟨by decide, by decide⟩, fun _ _ => trivial⟩

end Obos.PageTables
