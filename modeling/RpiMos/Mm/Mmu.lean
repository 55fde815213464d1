/-
  RpiMos.Mm.Mmu

  The address and page-table-entry arithmetic of include/mmu.h and
  include/pmap.h: the 9-bit table indices of a virtual address, the entry
  attributes, and the two ways the kernel takes a page number out of an entry
  (`PTE_ADDR`, a 30-bit mask, and `pa2page`, a 32-bit truncation).
-/

import Mathlib.Data.Nat.Bitwise

namespace RpiMos

/-- `u64`. -/
abbrev Word := BitVec 64

/-- `u32`. -/
abbrev U32 := BitVec 32

/-! ## Page size and indices -/

def BY2PG : Nat := 4096

/-- Entries of one table page. -/
def PTE2PT : Nat := 512

/-- Entries of the `pages` array (1 GiB of 4 KiB frames). -/
@[irreducible] def NPAGE : Nat := 262144

def GET_L1_INDEX (x : Word) : Nat := ((x >>> 30) &&& 0x1ff#64).toNat
def GET_L2_INDEX (x : Word) : Nat := ((x >>> 21) &&& 0x1ff#64).toNat
def GET_L3_INDEX (x : Word) : Nat := ((x >>> 12) &&& 0x1ff#64).toNat

theorem toNat_and_0x1ff (x : Word) : (x &&& 0x1ff#64).toNat = x.toNat % 512 := by
  have h : (0x1ff#64).toNat = 2 ^ 9 - 1 := by decide
  rw [BitVec.toNat_and, h, Nat.and_two_pow_sub_one_eq_mod]

theorem GET_L1_INDEX_eq (x : Word) : GET_L1_INDEX x = x.toNat / 2 ^ 30 % 512 := by
  rw [GET_L1_INDEX, toNat_and_0x1ff, BitVec.toNat_ushiftRight, Nat.shiftRight_eq_div_pow]

theorem GET_L2_INDEX_eq (x : Word) : GET_L2_INDEX x = x.toNat / 2 ^ 21 % 512 := by
  rw [GET_L2_INDEX, toNat_and_0x1ff, BitVec.toNat_ushiftRight, Nat.shiftRight_eq_div_pow]

theorem GET_L3_INDEX_eq (x : Word) : GET_L3_INDEX x = x.toNat / 2 ^ 12 % 512 := by
  rw [GET_L3_INDEX, toNat_and_0x1ff, BitVec.toNat_ushiftRight, Nat.shiftRight_eq_div_pow]

theorem GET_L1_INDEX_lt (x : Word) : GET_L1_INDEX x < PTE2PT := by
  rw [GET_L1_INDEX_eq, PTE2PT]; omega

theorem GET_L2_INDEX_lt (x : Word) : GET_L2_INDEX x < PTE2PT := by
  rw [GET_L2_INDEX_eq, PTE2PT]; omega

theorem GET_L3_INDEX_lt (x : Word) : GET_L3_INDEX x < PTE2PT := by
  rw [GET_L3_INDEX_eq, PTE2PT]; omega

/-! ## Address-space layout -/

def KERNBASE : Word := 0xffffff8000000000#64
def UVPT : Word := 0x4000000000#64
def USTACKTOP : Word := 0x3efff000#64
def UXSTACKTOP : Word := 0x7f00000000#64

def VADDR (va : Word) : Word := va &&& 0x7fffffffff#64
def ROUNDDOWN (a : Word) : Word := a &&& ~~~0xfff#64

/-- `va - ROUNDDOWN(va, BY2PG)`. -/
def pageOffset (va : Word) : Word := va - ROUNDDOWN va

/-- A mask that clears the bits below `k`. -/
theorem and_not_mask {mask : Word} {k : Nat}
    (hmask : ∀ i : Fin 64, (~~~ mask).getLsbD i.val = decide (k ≤ i.val)) (w : Word) :
    w &&& ~~~ mask = w >>> k <<< k := by
  ext i hi
  have h := hmask ⟨i, hi⟩
  rw [BitVec.getLsbD_eq_getElem hi] at h
  rw [BitVec.getElem_and, h, BitVec.getElem_shiftLeft]
  by_cases hk : k ≤ i
  · have hlt : ¬ i < k := by omega
    have hi' : k + (i - k) = i := by omega
    simp [hk, hlt, hi', BitVec.getLsbD_eq_getElem hi]
  · have hlt : i < k := by omega
    simp [hk, hlt]

theorem toNat_ROUNDDOWN (va : Word) : (ROUNDDOWN va).toNat = va.toNat / 4096 * 4096 := by
  have hlt := va.isLt
  have hshift : ROUNDDOWN va = va >>> 12 <<< 12 := and_not_mask (by decide) va
  rw [hshift, BitVec.toNat_shiftLeft, BitVec.toNat_ushiftRight, Nat.shiftRight_eq_div_pow,
    Nat.shiftLeft_eq]
  omega

theorem toNat_pageOffset (va : Word) : (pageOffset va).toNat = va.toNat % 4096 := by
  have hround := toNat_ROUNDDOWN va
  have hlt := va.isLt
  rw [pageOffset, BitVec.toNat_sub_of_le (by rw [BitVec.le_def, hround]; omega), hround]
  omega

/-- The level-1 slot of every directory that points back at the directory. -/
def uvptIndex : Nat := GET_L1_INDEX UVPT

theorem uvptIndex_eq : uvptIndex = 256 := by decide

/-! ## Entry attributes -/

def VALID : Word := 0x1#64
def TABLE : Word := 0x2#64
def UXN : Word := 0x1#64 <<< 54
def ACCESSED : Word := 0x1#64 <<< 10
def OUTER_SHARABLE : Word := 0x2#64 <<< 8
def INNER_SHARABLE : Word := 0x3#64 <<< 8
def NORMAL_MEMORY : Word := 0x0#64 <<< 2
def DEVICE_MEMORY : Word := 0x1#64 <<< 2
def PTE_USER : Word := 0x1#64 <<< 6
def PTE_RW : Word := 0x0#64 <<< 7
def PTE_RO : Word := 0x1#64 <<< 7
def PTE_LIBRARY : Word := 0x1#64 <<< 55

def PTE_ADDR (pte : Word) : Word := pte &&& 0x3ffff000#64
def GET_PTE_PERM (x : Word) : Word := x ^^^ PTE_ADDR x

/-- The entry's valid bit. -/
def isValid (pte : Word) : Bool := pte &&& VALID != 0

/-- The table page `KADDR(PTE_ADDR(pte))`, as a frame number. -/
def pteFrame (pte : Word) : Nat := (PTE_ADDR pte >>> 12).toNat

/-- `pa2page`: `Kern_pages + (((u32)x) >> 12)`, as an index into `pages`.  The
    cast keeps bits 12 to 31, two more than `PTE_ADDR` does. -/
def pa2page (x : Word) : Nat := (x.setWidth 32 >>> 12).toNat

/-- Address bits that `pa2page` reads and `PTE_ADDR` does not. -/
def highAddrBits : Word := 0xc0000000#64

/-- The bits `pa2page` reads, bits 12 to 31. -/
def pageNumberBits : Word := 0xfffff000#64

theorem pteFrame_eq (pte : Word) : pteFrame pte = pte.toNat / 2 ^ 12 % 2 ^ 18 := by
  have h : PTE_ADDR pte >>> 12 = (pte >>> 12) &&& 0x3ffff#64 := by
    rw [PTE_ADDR, BitVec.ushiftRight_and_distrib]
    rfl
  have hm : (0x3ffff#64).toNat = 2 ^ 18 - 1 := by decide
  rw [pteFrame, h, BitVec.toNat_and, hm, Nat.and_two_pow_sub_one_eq_mod,
    BitVec.toNat_ushiftRight, Nat.shiftRight_eq_div_pow]

theorem pteFrame_lt (pte : Word) : pteFrame pte < NPAGE := by
  rw [pteFrame_eq, NPAGE]; omega

theorem pa2page_eq (pte : Word) : pa2page pte = pte.toNat / 2 ^ 12 % 2 ^ 20 := by
  rw [pa2page, BitVec.toNat_ushiftRight, Nat.shiftRight_eq_div_pow, BitVec.toNat_setWidth]
  omega

/-- The page number beyond the `pages` array that the high bits add. -/
theorem pa2page_eq_pteFrame_add (pte : Word) :
    pa2page pte = pteFrame pte + 2 ^ 18 * (pte.toNat / 2 ^ 30 % 4) := by
  rw [pa2page_eq, pteFrame_eq]
  omega

private theorem highAddrBits_getLsbD (i : Fin 64) :
    highAddrBits.getLsbD i = decide (i.val = 30 ∨ i.val = 31) := by
  revert i; decide

theorem highAddrBits_clear_iff (pte : Word) :
    pte &&& highAddrBits = 0 ↔ pte.toNat / 2 ^ 30 % 4 = 0 := by
  -- Both sides say that bits 30 and 31 are clear.
  have hbits : pte.toNat / 2 ^ 30 % 4 = 0 ↔
      pte.toNat.testBit 30 = false ∧ pte.toNat.testBit 31 = false := by
    simp only [Nat.testBit_eq_decide_div_mod_eq, decide_eq_false_iff_not]
    omega
  rw [hbits]
  constructor
  · intro h
    have hbit (i : Nat) : (pte &&& highAddrBits).getLsbD i = false := by rw [h]; simp
    have h30 := hbit 30
    have h31 := hbit 31
    rw [BitVec.getLsbD_and, show highAddrBits.getLsbD 30 = true by decide] at h30
    rw [BitVec.getLsbD_and, show highAddrBits.getLsbD 31 = true by decide] at h31
    exact ⟨by simpa [BitVec.getLsbD] using h30, by simpa [BitVec.getLsbD] using h31⟩
  · rintro ⟨h30, h31⟩
    ext i hi
    rw [BitVec.getElem_and, ← BitVec.getLsbD_eq_getElem hi, ← BitVec.getLsbD_eq_getElem hi,
      highAddrBits_getLsbD ⟨i, hi⟩]
    by_cases hm : i = 30 ∨ i = 31
    · rcases hm with rfl | rfl
      · simp [BitVec.getLsbD, h30]
      · simp [BitVec.getLsbD, h31]
    · simp [hm]

/-- `pa2page` and `PTE_ADDR` agree exactly on entries without the high bits. -/
theorem pa2page_eq_pteFrame_iff (pte : Word) :
    pa2page pte = pteFrame pte ↔ pte &&& highAddrBits = 0 := by
  rw [highAddrBits_clear_iff, pa2page_eq_pteFrame_add]
  omega

/-! ## Entries put together with `|` -/

theorem PTE_ADDR_or (a b : Word) : PTE_ADDR (a ||| b) = PTE_ADDR a ||| PTE_ADDR b := by
  simp only [PTE_ADDR, BitVec.and_or_distrib_right]

theorem pteFrame_or_of_clear {a b : Word} (h : PTE_ADDR b = 0) :
    pteFrame (a ||| b) = pteFrame a := by
  rw [pteFrame, PTE_ADDR_or, h, pteFrame]
  simp

/-- The valid bit is bit 0. -/
theorem isValid_eq_getLsbD (a : Word) : isValid a = a.getLsbD 0 := by
  have hiff : a &&& VALID = 0 ↔ a.getLsbD 0 = false := by
    constructor
    · intro h
      have h0 : (a &&& VALID).getLsbD 0 = false := by rw [h]; simp
      simpa [VALID] using h0
    · intro h
      ext i hi
      rw [BitVec.getElem_and]
      rcases Nat.eq_zero_or_pos i with rfl | hpos
      · rw [← BitVec.getLsbD_eq_getElem, h]; simp
      · simp [VALID, Nat.pos_iff_ne_zero.mp hpos]
  rw [isValid, Bool.eq_iff_iff, bne_iff_ne, ne_eq, hiff, Bool.not_eq_false]

@[simp] theorem isValid_zero : isValid 0#64 = false := by decide

theorem isValid_or (a b : Word) : isValid (a ||| b) = (isValid a || isValid b) := by
  simp only [isValid_eq_getLsbD, BitVec.getLsbD_or]

theorem isValid_or_VALID (a : Word) : isValid (a ||| VALID) = true := by
  rw [isValid_or, show isValid VALID = true by decide, Bool.or_true]

end RpiMos
