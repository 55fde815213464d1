/-
  RpiMos.Mm.Translate

  The address translation of the processor for user addresses: 39 bits, three
  levels, 4 KiB pages.  `pgdir_walk` reads the same tables by its own means (a
  30-bit address mask, no look at the descriptor type), so the two agree on
  tables whose upper entries are as `pgdir_walk` and `env_setup_vm` write them.
  Through the self-map entry such a directory shows every entry of its own tables
  in the windows `vpd`, `vpm` and `vpt`.
-/

import RpiMos.Mm.Boot

namespace RpiMos

open Lib

variable {s s' : Pmap} {d t u i : Nat} {va a w : Word}

/-! ## Descriptors -/

/-- Bits 1 and 0 of a table descriptor, and of a page descriptor. -/
def isTableDesc (w : Word) : Bool := w &&& 0x3 = 0x3

/-- Bits 1 and 0 of a block descriptor. -/
def isBlockDesc (w : Word) : Bool := w &&& 0x3 = 0x1

/-- The output address of a descriptor, bits 47 to 12, as a frame number. -/
def outputFrame (w : Word) : Nat := w.toNat / 2 ^ 12 % 2 ^ 36

/-- `APTable[0]` takes EL0 all access below a table descriptor. -/
def APTABLE_NO_EL0 : Word := 0x1#64 <<< 61

/-- EL0 can read through a leaf descriptor: the access flag and `AP[1]`. -/
def el0Readable (w : Word) : Bool := w &&& ACCESSED ≠ 0 ∧ w &&& PTE_USER ≠ 0

/-- A translation for a read from EL0: the frame and the offset in it, or `none`
    for an abort.  `ttbr0` is the frame of the level-1 table. -/
def translate (s : Pmap) (ttbr0 : Nat) (va : Word) : Option (Nat × Nat) :=
  let off := va.toNat % 2 ^ 12
  let d₁ := s.mem ttbr0 (GET_L1_INDEX va)
  let d₂ := s.mem (outputFrame d₁) (GET_L2_INDEX va)
  let d₃ := s.mem (outputFrame d₂) (GET_L3_INDEX va)
  if va.toNat ≥ 2 ^ 39 then none
  else if isBlockDesc d₁ then
    if el0Readable d₁ then
      some (outputFrame d₁ / 2 ^ 18 * 2 ^ 18 + va.toNat / 2 ^ 12 % 2 ^ 18, off)
    else none
  else if !isTableDesc d₁ || d₁ &&& APTABLE_NO_EL0 != 0 then none
  else if isBlockDesc d₂ then
    if el0Readable d₂ then
      some (outputFrame d₂ / 2 ^ 9 * 2 ^ 9 + va.toNat / 2 ^ 12 % 2 ^ 9, off)
    else none
  else if !isTableDesc d₂ || d₂ &&& APTABLE_NO_EL0 != 0 then none
  else if isTableDesc d₃ && el0Readable d₃ then some (outputFrame d₃, off)
  else none

/-- A 64-bit load from EL0 at an aligned address. -/
def userLoad (s : Pmap) (ttbr0 : Nat) (va : Word) : Option Word :=
  (translate s ttbr0 va).map fun x => s.mem x.1 (x.2 / 8)

/-! ## Upper entries -/

/-- An entry that links a table, as `pgdir_walk` and `env_setup_vm` write it. -/
structure IsLink (w : Word) : Prop where
  desc : isTableDesc w = true
  accessed : w &&& ACCESSED ≠ 0
  user : w &&& PTE_USER ≠ 0
  el0 : w &&& APTABLE_NO_EL0 = 0
  addr : w.toNat / 2 ^ 30 % 2 ^ 18 = 0

theorem IsLink.el0Readable (h : IsLink w) : el0Readable w = true :=
  decide_eq_true ⟨h.accessed, h.user⟩

theorem IsLink.not_block (h : IsLink w) : isBlockDesc w = false := by
  have h₃ : w &&& 0x3 = 0x3 := of_decide_eq_true h.desc
  rw [isBlockDesc, h₃]
  decide

/-- The processor and `PTE_ADDR` read one frame out of a link. -/
theorem IsLink.outputFrame (h : IsLink w) : outputFrame w = pteFrame w := by
  have haddr := h.addr
  rw [RpiMos.outputFrame, pteFrame_eq]
  omega

/-- Every valid entry of the directory and of its level-2 tables is a link. -/
structure Linked (s : Pmap) (d : Nat) : Prop where
  dir : ∀ i < PTE2PT, isValid (s.mem d i) = true → IsLink (s.mem d i)
  table : ∀ i < PTE2PT, ∀ t, child s d i = some t → i ≠ uvptIndex →
    ∀ j < PTE2PT, isValid (s.mem t j) = true → IsLink (s.mem t j)

theorem Linked.child_link (h : Linked s d) (hi : i < PTE2PT) (hc : child s d i = some t) :
    IsLink (s.mem d i) ∧ outputFrame (s.mem d i) = t := by
  obtain ⟨hv, rfl⟩ := child_eq_some.mp hc
  have hlink := h.dir i hi hv
  exact ⟨hlink, hlink.outputFrame⟩

/-- Three links in a row translate an address. -/
theorem userLoad_of_links (ha : a.toNat < 2 ^ 39)
    (h₁ : IsLink (s.mem d (GET_L1_INDEX a))) (ht : outputFrame (s.mem d (GET_L1_INDEX a)) = t)
    (h₂ : IsLink (s.mem t (GET_L2_INDEX a))) (hu : outputFrame (s.mem t (GET_L2_INDEX a)) = u)
    (h₃ : IsLink (s.mem u (GET_L3_INDEX a))) :
    userLoad s d a =
      some (s.mem (outputFrame (s.mem u (GET_L3_INDEX a))) (a.toNat % 2 ^ 12 / 8)) := by
  have hlt : ¬ a.toNat ≥ 2 ^ 39 := by omega
  have htrans : translate s d a =
      some (outputFrame (s.mem u (GET_L3_INDEX a)), a.toNat % 2 ^ 12) := by
    unfold translate
    simp only [ht, hu, hlt, h₁.not_block, h₁.desc, h₁.el0, h₂.not_block, h₂.desc, h₂.el0, h₃.desc,
      h₃.el0Readable, if_false]
    rfl
  rw [userLoad, htrans]
  rfl

/-! ## The windows -/

def UVPM : Word := UVPT + (UVPT >>> 9)
def UVPD : Word := UVPM + (UVPT >>> 18)

/-- `(*vpd)[i]`, `(*vpm)[i]` and `(*vpt)[i]`, read by a user program. -/
def vpd (s : Pmap) (d : Nat) (i : Nat) : Option Word := userLoad s d (UVPD + BitVec.ofNat 64 (8 * i))
def vpm (s : Pmap) (d : Nat) (i : Nat) : Option Word := userLoad s d (UVPM + BitVec.ofNat 64 (8 * i))
def vpt (s : Pmap) (d : Nat) (i : Nat) : Option Word := userLoad s d (UVPT + BitVec.ofNat 64 (8 * i))

def SELF_PD (va : Word) : Nat := (va >>> 30).toNat
def SELF_PM (va : Word) : Nat := (va >>> 21).toNat
def SELF_PT (va : Word) : Nat := (va >>> 12).toNat

theorem SELF_PD_eq (va : Word) : SELF_PD va = va.toNat / 2 ^ 30 := by
  rw [SELF_PD, BitVec.toNat_ushiftRight, Nat.shiftRight_eq_div_pow]

theorem SELF_PM_eq (va : Word) : SELF_PM va = va.toNat / 2 ^ 21 := by
  rw [SELF_PM, BitVec.toNat_ushiftRight, Nat.shiftRight_eq_div_pow]

theorem SELF_PT_eq (va : Word) : SELF_PT va = va.toNat / 2 ^ 12 := by
  rw [SELF_PT, BitVec.toNat_ushiftRight, Nat.shiftRight_eq_div_pow]

theorem toNat_window (base : Word) (n : Nat) (h : base.toNat + 8 * n < 2 ^ 64) :
    (base + BitVec.ofNat 64 (8 * n)).toNat = base.toNat + 8 * n := by
  rw [BitVec.toNat_add, BitVec.toNat_ofNat]
  omega

section Windows

variable (hself : child s d uvptIndex = some d) (hl : Linked s d)

include hself hl

/-- The directory is its own level-2 and level-3 table. -/
theorem vpd_eq (hi : i < PTE2PT) : vpd s d i = some (s.mem d i) := by
  have hbase : UVPD.toNat = 2 ^ 38 + 2 ^ 29 + 2 ^ 20 := by decide
  rw [PTE2PT] at hi
  have ha := toNat_window UVPD i (by omega)
  rw [hbase] at ha
  have h₁ : GET_L1_INDEX (UVPD + BitVec.ofNat 64 (8 * i)) = uvptIndex := by
    rw [GET_L1_INDEX_eq, ha, uvptIndex_eq]
    omega
  have h₂ : GET_L2_INDEX (UVPD + BitVec.ofNat 64 (8 * i)) = uvptIndex := by
    rw [GET_L2_INDEX_eq, ha, uvptIndex_eq]
    omega
  have h₃ : GET_L3_INDEX (UVPD + BitVec.ofNat 64 (8 * i)) = uvptIndex := by
    rw [GET_L3_INDEX_eq, ha, uvptIndex_eq]
    omega
  obtain ⟨hlink, hout⟩ := hl.child_link (GET_L1_INDEX_lt UVPT) hself
  change IsLink (s.mem d uvptIndex) at hlink
  change outputFrame (s.mem d uvptIndex) = d at hout
  rw [vpd, userLoad_of_links (t := d) (u := d) (by omega) (by rw [h₁]; exact hlink)
    (by rw [h₁]; exact hout) (by rw [h₂]; exact hlink) (by rw [h₂]; exact hout)
    (by rw [h₃]; exact hlink), h₃, hout, ha]
  have hoff : (2 ^ 38 + 2 ^ 29 + 2 ^ 20 + 8 * i) % 2 ^ 12 / 8 = i := by omega
  rw [hoff]

/-- The directory is its own level-2 table, and its entry the page. -/
theorem vpm_eq {j : Nat} (hi : i < PTE2PT) (hj : j < PTE2PT) (hc : child s d i = some t) :
    vpm s d (i * 512 + j) = some (s.mem t j) := by
  have hbase : UVPM.toNat = 2 ^ 38 + 2 ^ 29 := by decide
  rw [PTE2PT] at hi hj
  have ha := toNat_window UVPM (i * 512 + j) (by omega)
  rw [hbase] at ha
  have h₁ : GET_L1_INDEX (UVPM + BitVec.ofNat 64 (8 * (i * 512 + j))) = uvptIndex := by
    rw [GET_L1_INDEX_eq, ha, uvptIndex_eq]
    omega
  have h₂ : GET_L2_INDEX (UVPM + BitVec.ofNat 64 (8 * (i * 512 + j))) = uvptIndex := by
    rw [GET_L2_INDEX_eq, ha, uvptIndex_eq]
    omega
  have h₃ : GET_L3_INDEX (UVPM + BitVec.ofNat 64 (8 * (i * 512 + j))) = i := by
    rw [GET_L3_INDEX_eq, ha]
    omega
  obtain ⟨hlink, hout⟩ := hl.child_link (GET_L1_INDEX_lt UVPT) hself
  change IsLink (s.mem d uvptIndex) at hlink
  change outputFrame (s.mem d uvptIndex) = d at hout
  obtain ⟨hlinkᵢ, houtᵢ⟩ := hl.child_link hi hc
  rw [vpm, userLoad_of_links (t := d) (u := d) (by omega) (by rw [h₁]; exact hlink)
    (by rw [h₁]; exact hout) (by rw [h₂]; exact hlink) (by rw [h₂]; exact hout)
    (by rw [h₃]; exact hlinkᵢ), h₃, houtᵢ, ha]
  have hoff : (2 ^ 38 + 2 ^ 29 + 8 * (i * 512 + j)) % 2 ^ 12 / 8 = j := by omega
  rw [hoff]

/-- The directory is the level-2 table, and a table below it the page table. -/
theorem vpt_eq {j k : Nat} (hi : i < PTE2PT) (hj : j < PTE2PT) (hk : k < PTE2PT)
    (hc : child s d i = some t) (hc₂ : child s t j = some u) :
    vpt s d ((i * 512 + j) * 512 + k) = some (s.mem u k) := by
  have hbase : UVPT.toNat = 2 ^ 38 := by decide
  have hlt := hj
  rw [PTE2PT] at hi hj hk
  have ha := toNat_window UVPT ((i * 512 + j) * 512 + k) (by omega)
  rw [hbase] at ha
  have h₁ : GET_L1_INDEX (UVPT + BitVec.ofNat 64 (8 * ((i * 512 + j) * 512 + k))) = uvptIndex := by
    rw [GET_L1_INDEX_eq, ha, uvptIndex_eq]
    omega
  have h₂ : GET_L2_INDEX (UVPT + BitVec.ofNat 64 (8 * ((i * 512 + j) * 512 + k))) = i := by
    rw [GET_L2_INDEX_eq, ha]
    omega
  have h₃ : GET_L3_INDEX (UVPT + BitVec.ofNat 64 (8 * ((i * 512 + j) * 512 + k))) = j := by
    rw [GET_L3_INDEX_eq, ha]
    omega
  obtain ⟨hlink, hout⟩ := hl.child_link (GET_L1_INDEX_lt UVPT) hself
  change IsLink (s.mem d uvptIndex) at hlink
  change outputFrame (s.mem d uvptIndex) = d at hout
  obtain ⟨hlinkᵢ, houtᵢ⟩ := hl.child_link hi hc
  obtain ⟨hv, rfl⟩ := child_eq_some.mp hc₂
  -- Behind the self-map entry the level-2 table is the directory once more.
  have hlinkⱼ : IsLink (s.mem t j) := by
    by_cases hwin : i = uvptIndex
    · rw [hwin] at hc
      obtain rfl : d = t := Option.some.inj (hself.symm.trans hc)
      exact hl.dir j hlt hv
    · exact hl.table i hi t hc hwin j hlt hv
  have houtⱼ := hlinkⱼ.outputFrame
  rw [vpt, userLoad_of_links (t := d) (u := t) (by omega) (by rw [h₁]; exact hlink)
    (by rw [h₁]; exact hout) (by rw [h₂]; exact hlinkᵢ) (by rw [h₂]; exact houtᵢ)
    (by rw [h₃]; exact hlinkⱼ), h₃, houtⱼ, ha]
  have hoff : (2 ^ 38 + 8 * ((i * 512 + j) * 512 + k)) % 2 ^ 12 / 8 = k := by omega
  rw [hoff]

end Windows

/-! ## What `pgdir_walk` visits -/

/-- The indices of the windows are the table indices of the address, one behind
    the other. -/
theorem self_indices (hva : va.toNat < 2 ^ 39) : SELF_PD va = GET_L1_INDEX va ∧
    SELF_PM va = GET_L1_INDEX va * 512 + GET_L2_INDEX va ∧
    SELF_PT va = (GET_L1_INDEX va * 512 + GET_L2_INDEX va) * 512 + GET_L3_INDEX va := by
  rw [SELF_PD_eq, SELF_PM_eq, SELF_PT_eq, GET_L1_INDEX_eq, GET_L2_INDEX_eq, GET_L3_INDEX_eq]
  refine ⟨?_, ?_, ?_⟩ <;> omega

/-- At each level the window shows the entry that `pgdir_walk` reads for `va`, as
    long as the level before is valid. -/
structure ViewsAgree (s : Pmap) (d : Nat) (va : Word) : Prop where
  level1 : vpd s d (SELF_PD va) = some (s.mem d (GET_L1_INDEX va))
  level2 : ∀ t, (pgdirWalkStep s d (GET_L1_INDEX va) va false).1 = .at t →
    vpm s d (SELF_PM va) = some (s.mem t (GET_L2_INDEX va))
  level3 : ∀ t i, (pgdirWalk s d va false).1 = .at (t, i) →
    vpt s d (SELF_PT va) = some (s.mem t i)

theorem pgdirWalkStep_false_eq_at :
    (pgdirWalkStep s t i va false).1 = .at u ↔ child s t i = some u := by
  unfold pgdirWalkStep child
  split <;> simp

theorem viewsAgree (hself : child s d uvptIndex = some d) (hl : Linked s d)
    (hva : va.toNat < 2 ^ 39) : ViewsAgree s d va := by
  obtain ⟨h₁, h₂, h₃⟩ := self_indices hva
  refine ⟨?_, fun t ht => ?_, fun t i ht => ?_⟩
  · rw [h₁]
    exact vpd_eq hself hl (GET_L1_INDEX_lt va)
  · rw [h₂]
    exact vpm_eq hself hl (GET_L1_INDEX_lt va) (GET_L2_INDEX_lt va)
      (pgdirWalkStep_false_eq_at.mp ht)
  · rw [pgdirWalk_false] at ht
    cases hx : leafSlot s d va with
    | none =>
        rw [hx] at ht
        cases ht
    | some x =>
        rw [hx] at ht
        cases ht
        obtain ⟨u, hu, hux⟩ := Option.map_eq_some_iff.mp hx
        cases hux
        simp only [radixWalk] at hu
        obtain ⟨v, hv, hvt⟩ := Option.bind_eq_some_iff.mp hu
        obtain ⟨w, hw, hwt⟩ := Option.bind_eq_some_iff.mp hvt
        cases hwt
        rw [h₃]
        exact vpt_eq hself hl (GET_L1_INDEX_lt va) (GET_L2_INDEX_lt va) (GET_L3_INDEX_lt va) hv hw

end RpiMos
