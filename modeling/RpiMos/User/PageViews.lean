/-
  RpiMos.User.PageViews

  User programs read the page tables through `vpd`, `vpm` and `vpt`: the test of
  `va_is_mapped`, `fd_lookup` and `pageref`, and the triple loop of `fork` with
  `duppage` for every page it finds.
-/

import RpiMos.Kernel.EnvLinks
import RpiMos.Kernel.MemCalls
import RpiMos.Fs.Block
import RpiMos.Lib.Prog

namespace RpiMos

open Lib RadixShape

variable {s s' : Pmap} {d t : Nat} {va : Word}

/-! ## The test for a mapped page -/

/-- The three tests in their order; `none` is an abort of one of the reads. -/
def userMapped (s : Pmap) (d : Nat) (va : Word) : Option Bool :=
  (vpd s d (SELF_PD va)).bind fun pde =>
    if isValid pde then
      (vpm s d (SELF_PM va)).bind fun pme =>
        if isValid pme then (vpt s d (SELF_PT va)).map isValid else some false
    else some false

/-- `va_is_mapped` of fs/fs.c. -/
def userVaIsMapped (s : Pmap) (d : Nat) (va : Word) : Option Bool := userMapped s d va

/-- `INDEX2FD`, with the product of two `int`s. -/
def fdVa (fdnum : U32) : Word := 0x70000000#64 + (fdnum * 4096).signExtend 64

/-- `fd_lookup`: the address of the descriptor, or the error. -/
def fdLookup (s : Pmap) (d : Nat) (fdnum : U32) : Option (Except U32 Word) :=
  if 32 ≤ fdnum.toInt then some (.error (-E_INVAL))
  else (userMapped s d (fdVa fdnum)).map fun mapped =>
    if mapped then .ok (fdVa fdnum) else .error (-E_INVAL)

/-- `pageref` of user/pageref.c, up to its system call: the page number asked
    for, or `none` where it returns 0. -/
def pagerefArg (s : Pmap) (d : Nat) (va : Word) : Option (Option Word) :=
  (userMapped s d va).bind fun mapped =>
    if mapped then (vpt s d (SELF_PT va)).map fun (pte : Word) => some ((pte >>> 12) &&& 0x7ffffff#64)
    else some none

/-- The test is `page_lookup`. -/
theorem userMapped_eq (hself : child s d uvptIndex = some d) (hl : Linked s d)
    (hva : va.toNat < 2 ^ 39) : userMapped s d va = some (pageLookup s d va).isSome := by
  have hviews := viewsAgree hself hl hva
  unfold userMapped
  rw [hviews.level1, Option.bind_some, pageLookup_eq]
  cases hc : child s d (GET_L1_INDEX va) with
  | none =>
      have hinvalid := child_eq_none.mp hc
      simp [hinvalid, leafSlot, radixWalk, hc]
  | some v =>
      obtain ⟨hv, -⟩ := child_eq_some.mp hc
      rw [if_pos hv, hviews.level2 v (pgdirWalkStep_false_eq_at.mpr hc), Option.bind_some]
      cases hc₂ : child s v (GET_L2_INDEX va) with
      | none =>
          have hinvalid := child_eq_none.mp hc₂
          simp [hinvalid, leafSlot, radixWalk, hc, hc₂]
      | some u =>
          obtain ⟨hv₂, -⟩ := child_eq_some.mp hc₂
          have hleaf : leafSlot s d va = some (u, GET_L3_INDEX va) := by
            simp [leafSlot, radixWalk, hc, hc₂]
          have hwalk : (pgdirWalk s d va false).1 = .at (u, GET_L3_INDEX va) := by
            rw [pgdirWalk_false, hleaf]
          rw [if_pos hv₂, hviews.level3 _ _ hwalk, hleaf]
          by_cases hv₃ : isValid (s.mem u (GET_L3_INDEX va)) = true
          · simp [hv₃]
          · simp [hv₃]

/-- What the window shows of a mapped page is the entry `page_lookup` finds. -/
theorem vpt_of_mapping {e : Word} (hself : child s d uvptIndex = some d) (hl : Linked s d)
    (hva : va.toNat < 2 ^ 39) (hm : mapping s d va = some e) : vpt s d (SELF_PT va) = some e := by
  obtain ⟨t, i, hx, -, rfl⟩ := mapping_eq_some.mp hm
  have hwalk : (pgdirWalk s d va false).1 = .at (t, i) := by
    rw [pgdirWalk_false, hx]
  exact (viewsAgree hself hl hva).level3 t i hwalk

/-! ## `fork` -/

/-- `user_panic`. -/
inductive ForkErr where
  | user_panic

/-- The kernel, and the pages for which `fork` has called `duppage`. -/
structure ForkState where
  k : Kernel
  calls : List (Word × Word)

abbrev ForkM := Prog ForkState ForkErr

/-- What a system call returned, as the `int` that the program looks at. -/
def syscallRet (k : Kernel) : U32 := (k.trap.regs 0).setWidth 32

/-- A call of `syscall_mem_map` whose failure is fatal. -/
def dupMap (srcva : Word) (envid : U32) (perm : Word) : ForkM PUnit := do
  let st ← Prog.get
  let k := sysMemMap st.k 0 srcva envid srcva perm
  Prog.modify fun st => { st with k := k }
  if (syscallRet k).msb then Prog.throw .user_panic else pure ⟨⟩

/-- `duppage`. -/
def duppage (envid : U32) (va pte : Word) : ForkM PUnit :=
  if va = UXSTACKTOP - 4096 then pure ⟨⟩
  else
    let perm := GET_PTE_PERM pte
    if perm &&& PTE_LIBRARY ≠ 0 then dupMap va envid perm
    else do
      dupMap va envid (perm ||| PTE_RO)
      if perm &&& PTE_RO = 0 then dupMap va 0 (perm ||| PTE_RO) else pure ⟨⟩

/-- A read through a window by the environment whose directory is `d`. -/
def readView (view : Pmap → Nat → Nat → Option Word) (d i : Nat) : ForkM Word := do
  let st ← Prog.get
  match view st.k.pm d i with
  | some w => pure w
  | none => Prog.stop "data abort"

/-- The innermost turn, for page `(i << 18) + (j << 9) + k`. -/
def forkPage (d : Nat) (envid : U32) (i j k : Nat) : ForkM PUnit := do
  let n := (i <<< 18) + (j <<< 9) + k
  let pte ← readView vpt d n
  if isValid pte = false ∨ pte &&& PTE_USER = 0 then pure ⟨⟩
  else
    let va := BitVec.ofNat 64 (n <<< 12)
    Prog.modify fun st => { st with calls := st.calls ++ [(va, pte)] }
    duppage envid va pte

/-- The middle turn. -/
def forkTable (d : Nat) (envid : U32) (i j : Nat) : ForkM PUnit := do
  let pme ← readView vpm d ((i <<< 9) + j)
  if isValid pme then Prog.forRange 0 512 (forkPage d envid i j) else pure ⟨⟩

/-- The outer turn. -/
def forkDir (d : Nat) (envid : U32) (i : Nat) : ForkM PUnit :=
  if i = uvptIndex then pure ⟨⟩
  else do
    let pde ← readView vpd d i
    if isValid pde then Prog.forRange 0 512 (forkTable d envid i) else pure ⟨⟩

/-- The triple loop of `fork`, run by the environment whose directory is `d`. -/
def forkLoop (d : Nat) (envid : U32) : ForkM PUnit := Prog.forRange 0 512 (forkDir d envid)

/-! ### What `duppage` leaves alone -/

/-- The upper tables of directory `d` hold the same words. -/
structure UpperKept (d : Nat) (s s' : Pmap) : Prop where
  dir : s'.mem d = s.mem d
  table : ∀ i < PTE2PT, i ≠ uvptIndex → ∀ t, child s d i = some t → s'.mem t = s.mem t

namespace UpperKept

theorem child_dir (h : UpperKept d s s') (i : Nat) : child s' d i = child s d i :=
  child_congr (congrFun h.dir i)

theorem child_table (h : UpperKept d s s') {i : Nat} (hi : i < PTE2PT) (hne : i ≠ uvptIndex)
    (hc : child s d i = some t) (j : Nat) : child s' t j = child s t j :=
  child_congr (congrFun (h.table i hi hne t hc) j)

theorem refl (d : Nat) (s : Pmap) : UpperKept d s s := ⟨rfl, fun _ _ _ _ _ => rfl⟩

theorem trans {s₁ : Pmap} (h : UpperKept d s s₁) (h' : UpperKept d s₁ s') : UpperKept d s s' where
  dir := h'.dir.trans h.dir
  table i hi hne t hc := by
    have hc₁ : child s₁ d i = some t := (h.child_dir i).trans hc
    exact (h'.table i hi hne t hc₁).trans (h.table i hi hne t hc)

theorem linked (h : UpperKept d s s') (hl : Linked s d) : Linked s' d where
  dir i hi hv := by
    rw [h.dir] at hv ⊢
    exact hl.dir i hi hv
  table i hi t hc hne j hj hv := by
    rw [h.child_dir] at hc
    rw [h.table i hi hne t hc] at hv ⊢
    exact hl.table i hi t hc hne j hj hv

end UpperKept

variable {boot : Nat → Nat} {dirs : Finset Nat} {k k₀ : Kernel} {c : EnvPtr} {envid : U32}
  {perm pte : Word} {n : Nat} {st st' : ForkState}

/-- Environment `c`, with directory `d`, has made child `envid` and runs. -/
structure ForkRuns (boot : Nat → Nat) (dirs : Finset Nat) (c : EnvPtr) (d : Nat) (envid : U32)
    (k : Kernel) : Prop where
  inv : VmInv boot dirs k
  cur : k.curenv = some c
  live : (k.envs c).status ≠ .ENV_FREE
  dir : k.pgdir c = d
  child : ∃ e, envid2env k envid false = some e ∧ (k.envs e).status ≠ .ENV_FREE ∧ k.pgdir e ≠ d
  linked : Linked k.pm d

theorem ForkRuns.mem_dirs (h : ForkRuns boot dirs c d envid k) : d ∈ dirs := by
  rw [← h.dir]
  exact h.inv.dir c h.live

theorem ForkRuns.self (h : ForkRuns boot dirs c d envid k) :
    RpiMos.child k.pm d uvptIndex = some d :=
  h.inv.pm.tables.dir_self d h.mem_dirs

/-- What a call of `syscall_mem_map` at `va` leaves of the caller's tables. -/
structure MapKeeps (d : Nat) (va : Word) (k k' : Kernel) : Prop where
  upper : UpperKept d k.pm k'.pm
  other : ∀ va', GET_L1_INDEX va' ≠ uvptIndex → pageIdx va' ≠ pageIdx va →
    mapping k'.pm d va' = mapping k.pm d va'

theorem MapKeeps.trans {k₁ k' : Kernel} (h : MapKeeps d va k k₁) (h' : MapKeeps d va k₁ k') :
    MapKeeps d va k k' where
  upper := h.upper.trans h'.upper
  other va' hva' hne := (h'.other va' hva' hne).trans (h.other va' hva' hne)

/-- Tables of the directories other than `d'` stand below directory `d`. -/
theorem upperKept_of_frame {d' : Nat} (hd : d ∈ dirs) (hne : d ≠ d')
    (hmem : ∀ u, IsTable s (dirs.erase d') u → s'.mem u = s.mem u) : UpperKept d s s' := by
  have hd₀ : d ∈ dirs.erase d' := Finset.mem_erase.mpr ⟨hne, hd⟩
  refine ⟨hmem d ⟨0, by omega, hd₀⟩, fun i hi hi' t hc => hmem t ?_⟩
  exact ⟨1, by omega, d, i, hd₀, ⟨hi, fun _ => hi'⟩, hc⟩

/-- A leaf write stays off the upper tables. -/
theorem upperKept_setLeaf {w : Word} {i : Nat} (ht : TablesOk s dirs) (hd : d ∈ dirs)
    (hat : (tableShape dirs).At (RpiMos.child s) 2 t) (hmem : s'.mem = (s.setPte t i w).mem) :
    UpperKept d s s' := by
  have hkeep : ∀ m < 2, ∀ u, (tableShape dirs).At (RpiMos.child s) m u → s'.mem u = s.mem u := by
    intro m hm u hu
    have hne : u ≠ t := by
      rintro rfl
      have := ht.forest.level_unique (by omega) (by omega) hu hat
      omega
    funext k
    rw [hmem, Pmap.setPte_mem_of_ne fun hk => hne hk.1]
  refine ⟨hkeep 0 (by omega) d hd, fun i hi hi' t hc => hkeep 1 (by omega) t ?_⟩
  exact ⟨d, i, hd, ⟨hi, fun _ => hi'⟩, hc⟩

/-- `syscall_mem_map` of one's own page into the child, or over itself. -/
theorem sysMemMap_keeps (h : ForkRuns boot dirs c d envid k) (hva : GET_L1_INDEX va ≠ uvptIndex)
    (dstid : U32) (hperm : perm &&& pageNumberBits = 0) :
    ForkRuns boot dirs c d envid (sysMemMap k 0 va dstid va perm) ∧
    MapKeeps d va k (sysMemMap k 0 va dstid va perm) := by
  have henter : k.enter c = k := by
    have hcur := h.cur
    unfold Kernel.enter
    rw [← hcur]
  have hinv : VmInv boot dirs (sysMemMap (k.enter c) 0 va dstid va perm) :=
    (sysMemMap_spec h.inv h.live hva hperm).1
  rw [henter] at hinv
  have hd := h.mem_dirs
  rcases sysMemMap_cases k 0 va dstid va perm with heq | ⟨src, dst, q, t, i, hsrc, hto, hlook, heq⟩
  · rw [heq]
    exact ⟨⟨h.inv.setReg0 ERR, h.cur, h.live, h.dir, h.child, h.linked⟩, .refl d k.pm,
      fun _ _ _ => rfl⟩
  · rw [heq] at hinv ⊢
    obtain rfl : c = src := by
      have hcur : envid2env k 0 false = k.curenv := if_pos rfl
      rw [hcur, h.cur] at hsrc
      exact Option.some.inj hsrc
    rw [h.dir] at hlook
    obtain ⟨hx, hv⟩ := pageLookup_slot hlook
    have hva' : GET_L1_INDEX (ROUNDDOWN va) ≠ uvptIndex := by
      rw [ROUNDDOWN_L1]
      exact hva
    have hm : mapping k.pm d (ROUNDDOWN va) = some (k.pm.mem t i) := by
      rw [mapping_of_leafSlot hx, if_pos hv]
    have hframe : pa2page (PTE_ADDR (k.pm.mem t i)) = pteFrame (k.pm.mem t i) :=
      pa2page_PTE_ADDR _
    have hused := h.inv.pm.mapped_used hd hm
    rw [hframe] at hinv ⊢
    have hkeeps : MapKeeps d va k ((k.setPm (pageInsert k.pm (k.pgdir dst)
        (pteFrame (k.pm.mem t i)) (ROUNDDOWN va) perm).2).setReg0
          (if (pageInsert k.pm (k.pgdir dst) (pteFrame (k.pm.mem t i)) (ROUNDDOWN va) perm).1
            then 0 else ERR)) := by
      by_cases hown : k.pgdir dst = d
      · rw [hown]
        obtain ⟨s', hins, hmem, -⟩ := pageInsert_of_mapped (pteFrame (k.pm.mem t i)) perm
          (leafSlot_keep h.inv.pm.tables hd hva' hx) hx hv
        obtain ⟨-, hed, -⟩ := h.inv.pm.pageInsert hd hva' (pteFrame_lt _) hused hperm
        refine ⟨?_, fun va'' hva'' hne => ?_⟩
        · rw [hins]
          exact upperKept_setLeaf h.inv.pm.tables hd (leafSlot_at hd hva' hx).1 hmem
        · apply hed.other hd hva''
          rintro ⟨-, hidx⟩
          rw [ROUNDDOWN_pageIdx] at hidx
          exact hne hidx
      · have hdst' : k.pgdir dst ∈ dirs := by
          rcases envid2env_cases hto with hcur | hlive
          · rw [h.cur] at hcur
            cases hcur
            exact absurd h.dir hown
          · exact h.inv.dir dst hlive
        obtain ⟨-, hed, -⟩ := h.inv.pm.pageInsert hdst' hva' (pteFrame_lt _) hused hperm
        refine ⟨upperKept_of_frame hd (Ne.symm hown) fun u hu => ?_, fun va'' hva'' _ => ?_⟩
        · exact h.inv.pm.pageInsert_frame hdst' hva' hu
        · apply hed.other hd hva''
          rintro ⟨hsame, -⟩
          exact hown hsame.symm
    exact ⟨⟨hinv, h.cur, h.live, h.dir, h.child, hkeeps.upper.linked h.linked⟩, hkeeps⟩

/-! ### One call of `duppage` -/

theorem dupMap_apply (srcva : Word) (dstid : U32) (perm : Word) (st : ForkState) :
    dupMap srcva dstid perm st =
      if (syscallRet (sysMemMap st.k 0 srcva dstid srcva perm)).msb then
        .fail .user_panic { st with k := sysMemMap st.k 0 srcva dstid srcva perm }
      else .ret ⟨⟩ { st with k := sysMemMap st.k 0 srcva dstid srcva perm } := by
  unfold dupMap
  rw [Prog.bind_ret (Prog.get_apply st), Prog.bind_ret (Prog.modify_apply _ st)]
  split <;> rfl

/-- What a call for page `va` has done so far. -/
structure Dupped (boot : Nat → Nat) (dirs : Finset Nat) (c : EnvPtr) (d : Nat) (envid : U32)
    (va : Word) (st st' : ForkState) : Prop where
  runs : ForkRuns boot dirs c d envid st'.k
  keeps : MapKeeps d va st.k st'.k
  calls : st'.calls = st.calls

theorem dupMap_sat (h : ForkRuns boot dirs c d envid st.k) (hva : GET_L1_INDEX va ≠ uvptIndex)
    (dstid : U32) (hperm : perm &&& pageNumberBits = 0) :
    (dupMap va dstid perm).Sat st (fun _ => Dupped boot dirs c d envid va st)
      (fun _ st' => st'.calls = st.calls) := by
  obtain ⟨hruns, hkeeps⟩ := sysMemMap_keeps h hva dstid hperm
  rw [Prog.Sat, dupMap_apply]
  split
  · rename_i heq
    split at heq
    · cases heq
    · cases heq
      exact ⟨hruns, hkeeps, rfl⟩
  · rename_i heq
    split at heq
    · cases heq
      rfl
    · cases heq
  · rename_i heq
    split at heq <;> cases heq

/-- The permission bits of an entry that reads the same both ways. -/
theorem GET_PTE_PERM_tame (hclear : pte &&& highAddrBits = 0) :
    GET_PTE_PERM pte &&& pageNumberBits = 0 := by
  have hmask : ∀ i : Fin 64, pageNumberBits.getLsbD i =
      ((0x3ffff000#64).getLsbD i || highAddrBits.getLsbD i) := by decide
  ext i hi
  have hhigh : (pte &&& highAddrBits).getLsbD i = false := by rw [hclear]; simp
  rw [BitVec.getLsbD_and] at hhigh
  rw [BitVec.getElem_and, GET_PTE_PERM, PTE_ADDR, BitVec.getElem_xor, BitVec.getElem_and,
    ← BitVec.getLsbD_eq_getElem hi, ← BitVec.getLsbD_eq_getElem hi, ← BitVec.getLsbD_eq_getElem hi,
    hmask ⟨i, hi⟩]
  cases h₁ : pte.getLsbD i <;> cases h₂ : (0x3ffff000#64).getLsbD i <;>
    cases h₃ : highAddrBits.getLsbD i <;> simp_all

theorem tame_or_PTE_RO (h : perm &&& pageNumberBits = 0) :
    (perm ||| PTE_RO) &&& pageNumberBits = 0 := by
  have hro : PTE_RO &&& pageNumberBits = 0 := by decide
  rw [BitVec.and_or_distrib_right, h, hro]
  rfl

theorem duppage_sat (h : ForkRuns boot dirs c d envid st.k) (hva : GET_L1_INDEX va ≠ uvptIndex)
    (hclear : pte &&& highAddrBits = 0) :
    (duppage envid va pte).Sat st (fun _ => Dupped boot dirs c d envid va st)
      (fun _ st' => st'.calls = st.calls) := by
  have hperm := GET_PTE_PERM_tame hclear
  have hro := tame_or_PTE_RO hperm
  unfold duppage
  split
  · exact ⟨h, ⟨.refl d st.k.pm, fun _ _ _ => rfl⟩, rfl⟩
  · simp only
    split
    · exact dupMap_sat h hva envid hperm
    · -- A private page goes to the child read-only, and becomes so here.
      refine (dupMap_sat h hva envid hro).bind fun _ st₁ h₁ => ?_
      split
      · refine (dupMap_sat h₁.runs hva 0 hro).mono (fun _ st₂ h₂ => ?_) fun _ st₂ h₂ => ?_
        · exact ⟨h₂.runs, h₁.keeps.trans h₂.keeps, h₂.calls.trans h₁.calls⟩
        · exact h₂.trans h₁.calls
      · exact h₁

/-! ### The pages that `fork` has to pass on -/

/-- The address of page `n`. -/
def pageVa (n : Nat) : Word := BitVec.ofNat 64 (n <<< 12)

/-- Page `n` with its entry, if it is a valid user page outside the window. -/
def userPage (s : Pmap) (d n : Nat) : Option (Word × Word) :=
  if n / 2 ^ 18 = uvptIndex then none
  else (mapping s d (pageVa n)).bind fun e =>
    if e &&& PTE_USER = 0 then none else some (pageVa n, e)

/-- All of them, in the order of their addresses. -/
def userPages (s : Pmap) (d : Nat) : List (Word × Word) :=
  (List.range (2 ^ 27)).filterMap (userPage s d)

theorem toNat_pageVa (hn : n < 2 ^ 27) : (pageVa n).toNat = n * 4096 := by
  rw [pageVa, BitVec.toNat_ofNat, Nat.shiftLeft_eq]
  omega

/-- The page in turn `i`, `j`, `k`. -/
theorem pageVa_idx {i j l : Nat} (hi : i < 512) (hj : j < 512) (hl : l < 512) :
    pageIdx (pageVa ((i * 512 + j) * 512 + l)) = (i, j, l) := by
  rw [pageIdx, GET_L1_INDEX_eq, GET_L2_INDEX_eq, GET_L3_INDEX_eq, toNat_pageVa (by omega)]
  simp only [Prod.mk.injEq]
  omega

theorem pageVa_L1 (hn : n < 2 ^ 27) : GET_L1_INDEX (pageVa n) = n / 2 ^ 18 := by
  rw [GET_L1_INDEX_eq, toNat_pageVa hn]
  omega

theorem turn_eq (i j l : Nat) : (i <<< 18) + (j <<< 9) + l = (i * 512 + j) * 512 + l := by
  rw [Nat.shiftLeft_eq, Nat.shiftLeft_eq]
  omega

/-- What directory `d` maps at page `i`, `j`, `l`, told from its tables. -/
theorem mapping_pageVa {i j l : Nat} (hi : i < 512) (hj : j < 512) (hl : l < 512) :
    mapping s d (pageVa ((i * 512 + j) * 512 + l)) =
      (child s d i).bind fun t => (child s t j).bind fun u =>
        if isValid (s.mem u l) then some (s.mem u l) else none := by
  have hidx := pageVa_idx hi hj hl
  obtain ⟨h₁, h₂, h₃⟩ : GET_L1_INDEX (pageVa ((i * 512 + j) * 512 + l)) = i ∧
      GET_L2_INDEX (pageVa ((i * 512 + j) * 512 + l)) = j ∧
      GET_L3_INDEX (pageVa ((i * 512 + j) * 512 + l)) = l := by simpa [pageIdx] using hidx
  unfold mapping leafSlot
  simp only [radixWalk, h₁, h₂, h₃]
  cases child s d i with
  | none => rfl
  | some t =>
      simp only [Option.bind_some]
      cases child s t j <;> rfl

/-- Before page `n` the pages below it have been passed on, and the others are
    mapped as at the start. -/
structure ForkAt (boot : Nat → Nat) (dirs : Finset Nat) (c : EnvPtr) (d : Nat) (envid : U32)
    (k₀ : Kernel) (n : Nat) (st : ForkState) : Prop where
  runs : ForkRuns boot dirs c d envid st.k
  calls : st.calls = (List.range n).filterMap (userPage k₀.pm d)
  rest : ∀ m, n ≤ m → m < 2 ^ 27 → m / 2 ^ 18 ≠ uvptIndex →
    mapping st.k.pm d (pageVa m) = mapping k₀.pm d (pageVa m)

/-- Pages that are passed over are no user pages. -/
theorem ForkAt.skip {n' : Nat} (h : ForkAt boot dirs c d envid k₀ n st) (hle : n ≤ n')
    (hn' : n' ≤ 2 ^ 27)
    (hnone : ∀ m, n ≤ m → m < n' → m / 2 ^ 18 ≠ uvptIndex → mapping st.k.pm d (pageVa m) = none) :
    ForkAt boot dirs c d envid k₀ n' st := by
  refine ⟨h.runs, ?_, fun m hm => h.rest m (by omega)⟩
  obtain ⟨l, rfl⟩ : ∃ l, n' = n + l := ⟨n' - n, by omega⟩
  rw [h.calls, List.range_add, List.filterMap_append]
  have hempty : (List.map (n + ·) (List.range l)).filterMap (userPage k₀.pm d) = [] := by
    rw [List.filterMap_eq_nil_iff]
    intro m hm
    obtain ⟨x, hx, rfl⟩ := List.mem_map.mp hm
    rw [List.mem_range] at hx
    unfold userPage
    split
    · rfl
    · rename_i hne
      rw [← h.rest _ (by omega) (by omega) hne, hnone _ (by omega) (by omega) hne]
      rfl
  rw [hempty, List.append_nil]

theorem userPages_prefix (s : Pmap) (d : Nat) (hn : n ≤ 2 ^ 27) :
    (List.range n).filterMap (userPage s d) <+: userPages s d := by
  obtain ⟨l, hl⟩ : ∃ l, 2 ^ 27 = n + l := ⟨2 ^ 27 - n, by omega⟩
  unfold userPages
  rw [hl, List.range_add, List.filterMap_append]
  exact List.prefix_append _ _

theorem readView_of_some {view : Pmap → Nat → Nat → Option Word} {i : Nat} {w : Word}
    (h : view st.k.pm d i = some w) : readView view d i st = .ret w st := by
  unfold readView
  rw [Prog.bind_ret (Prog.get_apply st), h]
  rfl

/-! ### The loops -/

/-- What holds where the loop is left by `user_panic`. -/
def CallsPrefix (k₀ : Kernel) (d : Nat) (_ : ForkErr) (st : ForkState) : Prop :=
  st.calls <+: userPages k₀.pm d

section Turns

variable {i j : Nat} (hi : i < 512) (hwin : i ≠ uvptIndex)

include hi hwin

/-- The innermost turn passes on the page it is for, or passes over it. -/
theorem forkPage_sat {u l : Nat} (hj : j < 512) (hl : l < 512)
    (hn : (i * 512 + j) * 512 + l = n) (h : ForkAt boot dirs c d envid k₀ n st)
    (hc : child st.k.pm d i = some t) (hc₂ : child st.k.pm t j = some u) :
    (forkPage d envid i j l).Sat st
      (fun _ st' => ForkAt boot dirs c d envid k₀ (n + 1) st' ∧ UpperKept d st.k.pm st'.k.pm)
      (CallsPrefix k₀ d) := by
  have hturn : (i <<< 18) + (j <<< 9) + l = n := (turn_eq i j l).trans hn
  have hentry : vpt st.k.pm d n = some (st.k.pm.mem u l) := by
    rw [← hn]
    exact vpt_eq h.runs.self h.runs.linked hi hj hl hc hc₂
  have hmap : mapping st.k.pm d (pageVa n) =
      if isValid (st.k.pm.mem u l) then some (st.k.pm.mem u l) else none := by
    rw [← hn, mapping_pageVa hi hj hl, hc, Option.bind_some, hc₂, Option.bind_some]
  have hL1 : n / 2 ^ 18 = i := by omega
  have hlt : n < 2 ^ 27 := by omega
  have hrest := h.rest n (Nat.le_refl n) hlt (by rw [hL1]; exact hwin)
  unfold forkPage
  rw [hturn]
  refine Prog.Sat.bind_ret (readView_of_some hentry) ?_
  split
  · -- No user page: nothing is called for it.
    rename_i hskip
    have hnone : userPage k₀.pm d n = none := by
      unfold userPage
      rw [hL1, if_neg hwin, ← hrest, hmap]
      rcases hskip with hinvalid | hkern
      · simp [hinvalid]
      · split
        · simp [hkern]
        · rfl
    refine ⟨⟨h.runs, ?_, fun m hm => h.rest m (by omega)⟩, .refl d st.k.pm⟩
    rw [h.calls, List.range_succ, List.filterMap_append, List.filterMap_cons_none hnone]
    simp
  · rename_i huser
    rw [not_or, Bool.not_eq_false] at huser
    obtain ⟨hv, hu⟩ := huser
    rw [if_pos hv] at hmap
    have hsome : userPage k₀.pm d n = some (pageVa n, st.k.pm.mem u l) := by
      unfold userPage
      rw [hL1, if_neg hwin, ← hrest, hmap, Option.bind_some, if_neg hu]
    have hcalls : st.calls ++ [(pageVa n, st.k.pm.mem u l)] =
        (List.range (n + 1)).filterMap (userPage k₀.pm d) := by
      rw [h.calls, List.range_succ, List.filterMap_append, List.filterMap_cons_some hsome]
      simp
    have hva : GET_L1_INDEX (pageVa n) ≠ uvptIndex := by
      rw [pageVa_L1 hlt, hL1]
      exact hwin
    have hclear := h.runs.inv.pm.clear d h.runs.mem_dirs _ _ hva hmap
    have hruns : ForkRuns boot dirs c d envid
        { st with calls := st.calls ++ [(pageVa n, st.k.pm.mem u l)] }.k := h.runs
    have hdup := duppage_sat hruns hva hclear
    refine hdup.mono (fun _ st' h' => ⟨⟨h'.runs, ?_, fun m hm hmlt hm' => ?_⟩, h'.keeps.upper⟩)
      fun _ st' h' => ?_
    · rw [h'.calls, hcalls]
    · rw [h'.keeps.other _ (by rw [pageVa_L1 hmlt]; exact hm') ?_]
      · exact h.rest m (by omega) hmlt hm'
      · intro hidx
        simp only [pageIdx, GET_L1_INDEX_eq, GET_L2_INDEX_eq, GET_L3_INDEX_eq, Prod.mk.injEq,
          toNat_pageVa hmlt, toNat_pageVa hlt] at hidx
        omega
    · unfold CallsPrefix
      rw [h', hcalls]
      exact userPages_prefix _ _ (by omega)

/-- The middle turn: a table that is not there has no pages. -/
theorem forkTable_sat (hj : j < 512)
    (h : ForkAt boot dirs c d envid k₀ ((i * 512 + j) * 512) st)
    (hc : child st.k.pm d i = some t) :
    (forkTable d envid i j).Sat st
      (fun _ st' => ForkAt boot dirs c d envid k₀ ((i * 512 + (j + 1)) * 512) st' ∧
        UpperKept d st.k.pm st'.k.pm) (CallsPrefix k₀ d) := by
  have hentry : vpm st.k.pm d ((i <<< 9) + j) = some (st.k.pm.mem t j) := by
    rw [Nat.shiftLeft_eq]
    exact vpm_eq h.runs.self h.runs.linked hi hj hc
  have hend : (i * 512 + (j + 1)) * 512 = (i * 512 + j) * 512 + 512 := by omega
  unfold forkTable
  refine Prog.Sat.bind_ret (readView_of_some hentry) ?_
  rw [hend]
  split
  · rename_i hv
    have hc₂ : child st.k.pm t j = some (pteFrame (st.k.pm.mem t j)) := child_of_valid hv
    have hstart : ForkAt boot dirs c d envid k₀ ((i * 512 + j) * 512 + 0) st := by
      rw [Nat.add_zero]
      exact h
    have hloop := Prog.Sat.forRange (i := 0) (n := 512) (s := st) (E := CallsPrefix k₀ d)
      (I := fun l st' => ForkAt boot dirs c d envid k₀ ((i * 512 + j) * 512 + l) st' ∧
        UpperKept d st.k.pm st'.k.pm)
      ⟨hstart, .refl d st.k.pm⟩ fun l _ hl st₁ h₁ => (?_ : (forkPage d envid i j l).Sat st₁ _ _)
    · refine hloop.mono (fun _ st₂ h₂ => ?_) fun _ _ h₂ => h₂
      rw [Nat.zero_add] at h₂
      exact h₂
    · obtain ⟨hat, hup⟩ := h₁
      have hc' := (hup.child_dir i).trans hc
      have hc₂' := (hup.child_table hi hwin hc j).trans hc₂
      have hturn := forkPage_sat (n := (i * 512 + j) * 512 + l) (l := l) hi hwin hj (by omega)
        (Eq.refl _) hat hc' hc₂'
      rw [Nat.add_assoc] at hturn
      exact hturn.mono (fun _ st₂ h₂ => ⟨h₂.1, hup.trans h₂.2⟩) fun _ _ h₂ => h₂
  · rename_i hv
    refine ⟨h.skip (by omega) (by omega) fun m hm hlt _ => ?_, .refl d st.k.pm⟩
    obtain ⟨l, hl, rfl⟩ : ∃ l, l < 512 ∧ m = (i * 512 + j) * 512 + l :=
      ⟨m - (i * 512 + j) * 512, by omega, by omega⟩
    have hnone : child st.k.pm t j = none := child_eq_none.mpr (by simpa using hv)
    rw [mapping_pageVa hi hj hl, hc, Option.bind_some, hnone]
    rfl

end Turns

/-- The outer turn. -/
theorem forkDir_sat {i : Nat} (hi : i < 512)
    (h : ForkAt boot dirs c d envid k₀ (i * 512 * 512) st) :
    (forkDir d envid i).Sat st
      (fun _ => ForkAt boot dirs c d envid k₀ ((i + 1) * 512 * 512)) (CallsPrefix k₀ d) := by
  unfold forkDir
  split
  · rename_i hwin
    refine h.skip (by omega) (by omega) fun m hm hlt hne => ?_
    exact absurd (by omega) hne
  · rename_i hwin
    have hentry : vpd st.k.pm d i = some (st.k.pm.mem d i) :=
      vpd_eq h.runs.self h.runs.linked hi
    refine Prog.Sat.bind_ret (readView_of_some hentry) ?_
    split
    · rename_i hv
      have hc : child st.k.pm d i = some (pteFrame (st.k.pm.mem d i)) := child_of_valid hv
      have hstart : ForkAt boot dirs c d envid k₀ ((i * 512 + 0) * 512) st := by
        rw [Nat.add_zero]
        exact h
      have hloop := Prog.Sat.forRange (i := 0) (n := 512) (s := st) (E := CallsPrefix k₀ d)
        (I := fun j st' => ForkAt boot dirs c d envid k₀ ((i * 512 + j) * 512) st' ∧
          UpperKept d st.k.pm st'.k.pm)
        ⟨hstart, .refl d st.k.pm⟩ fun j _ hj st₁ h₁ => (?_ : (forkTable d envid i j).Sat st₁ _ _)
      · refine hloop.mono (fun _ st₂ h₂ => ?_) fun _ _ h₂ => h₂
        have hend : (i + 1) * 512 * 512 = (i * 512 + 512) * 512 := by omega
        rw [Nat.zero_add] at h₂
        rw [hend]
        exact h₂.1
      · obtain ⟨hat, hup⟩ := h₁
        have hc' := (hup.child_dir i).trans hc
        exact (forkTable_sat hi hwin (by omega) hat hc').mono
          (fun _ st₂ h₂ => ⟨h₂.1, hup.trans h₂.2⟩) fun _ _ h₂ => h₂
    · rename_i hv
      refine h.skip (by omega) (by omega) fun m hm hlt _ => ?_
      obtain ⟨j, l, hj, hl, rfl⟩ : ∃ j l, j < 512 ∧ l < 512 ∧ m = (i * 512 + j) * 512 + l :=
        ⟨(m - i * 512 * 512) / 512, m % 512, by omega, by omega, by omega⟩
      have hnone : child st.k.pm d i = none := child_eq_none.mpr (by simpa using hv)
      rw [mapping_pageVa hi hj hl, hnone]
      rfl

/-- The triple loop reads no entry that is not there, and calls `duppage` for the
    user pages of the start, each once and in order, until a call fails. -/
theorem forkLoop_sat (h : ForkRuns boot dirs c d envid k₀) :
    (forkLoop d envid).Sat ⟨k₀, []⟩ (fun _ st => st.calls = userPages k₀.pm d)
      (CallsPrefix k₀ d) := by
  have hstart : ForkAt boot dirs c d envid k₀ (0 * 512 * 512) ⟨k₀, []⟩ :=
    ⟨h, rfl, fun _ _ _ _ => rfl⟩
  have hloop := Prog.Sat.forRange (i := 0) (n := 512) (s := ⟨k₀, []⟩) (E := CallsPrefix k₀ d)
    (I := fun i => ForkAt boot dirs c d envid k₀ (i * 512 * 512))
    hstart fun i _ hi st₁ h₁ => forkDir_sat (by omega) h₁
  exact hloop.mono (fun _ st hst => hst.calls) fun _ _ he => he

/-! ## The two views -/

/-- `calls` names each valid user page outside the window once, by its address,
    with the entry it has. -/
structure PassedOn (s : Pmap) (d : Nat) (calls : List (Word × Word)) : Prop where
  mem : ∀ va e, (va, e) ∈ calls ↔ va.toNat < 2 ^ 39 ∧ va.toNat % 4096 = 0 ∧
    GET_L1_INDEX va ≠ uvptIndex ∧ mapping s d va = some e ∧ e &&& PTE_USER ≠ 0
  once : calls.Pairwise fun x y => x.1 < y.1

theorem userPage_eq_some {e : Word} (hn : n < 2 ^ 27) :
    userPage s d n = some (va, e) ↔ va = pageVa n ∧ GET_L1_INDEX va ≠ uvptIndex ∧
      mapping s d va = some e ∧ e &&& PTE_USER ≠ 0 := by
  have hL1 := pageVa_L1 hn
  unfold userPage
  constructor
  · intro h
    split at h
    · cases h
    · rename_i hne
      obtain ⟨e', he', hsome⟩ := Option.bind_eq_some_iff.mp h
      split at hsome
      · cases hsome
      · rename_i huser
        cases hsome
        exact ⟨rfl, by rw [hL1]; exact hne, he', huser⟩
  · rintro ⟨rfl, hne, hm, huser⟩
    rw [hL1] at hne
    rw [if_neg hne, hm, Option.bind_some, if_neg huser]

theorem userPages_passedOn (s : Pmap) (d : Nat) : PassedOn s d (userPages s d) where
  mem va e := by
    unfold userPages
    rw [List.mem_filterMap]
    constructor
    · rintro ⟨n, hn, hsome⟩
      rw [List.mem_range] at hn
      obtain ⟨rfl, hrest⟩ := (userPage_eq_some hn).mp hsome
      rw [toNat_pageVa hn]
      exact ⟨by omega, by omega, hrest⟩
    · rintro ⟨hlt, haligned, hrest⟩
      have hn : va.toNat / 4096 < 2 ^ 27 := by omega
      have hva : va = pageVa (va.toNat / 4096) := by
        apply BitVec.eq_of_toNat_eq
        rw [toNat_pageVa hn]
        omega
      exact ⟨va.toNat / 4096, List.mem_range.mpr hn, (userPage_eq_some hn).mpr ⟨hva, hrest⟩⟩
  once := by
    unfold userPages
    rw [List.pairwise_filterMap]
    apply List.pairwise_lt_range.imp_of_mem
    rintro m n hm hn hlt ⟨va, e⟩ hx ⟨va', e'⟩ hy
    rw [List.mem_range] at hm hn
    obtain ⟨rfl, -⟩ := (userPage_eq_some hm).mp hx
    obtain ⟨rfl, -⟩ := (userPage_eq_some hn).mp hy
    rw [BitVec.lt_def, toNat_pageVa hm, toNat_pageVa hn]
    omega

/-- The tests of user programs for the page of `va` are `page_lookup`. -/
structure TestsAgree (s : Pmap) (d : Nat) (va : Word) : Prop where
  va_is_mapped : userVaIsMapped s d va = some (pageLookup s d va).isSome
  pageref : ∃ n, pagerefArg s d va = some n ∧ n.isSome = (pageLookup s d va).isSome
  fd_lookup : ∀ fdnum, va = fdVa fdnum → fdLookup s d fdnum =
    some (if fdnum.toInt < 32 ∧ (pageLookup s d va).isSome then .ok va else .error (-E_INVAL))

theorem pageLookup_isSome (s : Pmap) (d : Nat) (va : Word) :
    (pageLookup s d va).isSome = (mapping s d va).isSome := by
  rw [pageLookup_eq, mapping]
  cases leafSlot s d va with
  | none => rfl
  | some x =>
      simp only [Option.bind_some]
      split <;> rfl

theorem testsAgree (hself : child s d uvptIndex = some d) (hl : Linked s d)
    (hva : va.toNat < 2 ^ 39) : TestsAgree s d va where
  va_is_mapped := userMapped_eq hself hl hva
  pageref := by
    unfold pagerefArg
    rw [userMapped_eq hself hl hva, Option.bind_some, pageLookup_isSome]
    cases hm : mapping s d va with
    | none => exact ⟨none, rfl, rfl⟩
    | some e =>
        refine ⟨some ((e >>> 12) &&& 0x7ffffff#64), ?_, rfl⟩
        rw [Option.isSome_some, if_pos rfl, vpt_of_mapping hself hl hva hm]
        rfl
  fd_lookup fdnum hfd := by
    subst hfd
    unfold fdLookup
    by_cases hlt : 32 ≤ fdnum.toInt
    · rw [if_pos hlt, if_neg (by omega)]
    · rw [if_neg hlt, userMapped_eq hself hl hva]
      have hlt' : fdnum.toInt < 32 := by omega
      cases (pageLookup s d (fdVa fdnum)).isSome <;> simp [hlt']

/-- Environment 0 over the directory of page 1024, and its child over directory `d`. -/
def boardFork (s : Pmap) (d : Nat) : Kernel :=
  { boardKernel with
    pm := s
    curenv := some 0
    envs := fun e =>
      if e = 0 then { zeroEnv with id := 2048, status := .ENV_RUNNABLE, pgdir := some 1024 }
      else if e = 1 then { zeroEnv with id := 4097, status := .ENV_NOT_RUNNABLE, pgdir := some d }
      else zeroEnv }

theorem boardBoot_links : LinksOk boardBoot ∅ := by
  intro m
  induction m with
  | zero =>
      intro _ u hu
      exact absurd hu (Finset.notMem_empty u)
  | succ m ih =>
      rintro hm u ⟨q, j, hq, -⟩
      have hm₀ : m = 0 := by omega
      subst hm₀
      exact absurd hq (Finset.notMem_empty q)

/-- A board where a process that has page 0 of the boot code forks. -/
theorem boardFork_runs : ∃ s d e, ForkRuns boardCount {d, 1024} 0 1024 4097 (boardFork s d) ∧
    mapping s 1024 0 = some e ∧ e &&& PTE_USER ≠ 0 := by
  obtain ⟨s₁, halloc⟩ := boardBoot_alloc
  obtain ⟨hI₁, hnone, d, s₂, halloc₂, hfree⟩ := boardDir_ok halloc
  have hsound₁ := (boardCaller_vm halloc).pm
  have hsound₂ := hsound₁.newDir halloc₂
  have hpa : PaLinks boardBoot := initBootPt_paLinks 0x200000 0x400000 fun _ _ => 0
  have hlinks₁ : LinksOk (envNewDir s₁ 1024) {1024} :=
    boardBoot_links.newDir initBootPt_inv hpa halloc
  have hpa₁ : PaLinks (envNewDir s₁ 1024) := hpa.congr (boardDir_pa halloc)
  have hlinks₂ := hlinks₁.newDir hI₁ hpa₁ halloc₂
  have hpa₂ : PaLinks (envNewDir s₂ d) := hpa₁.congr fun p => by
    obtain ⟨-, -, -, -, hpages, -⟩ := pageAlloc_spec halloc₂
    rw [envNewDir_pages, incRef_pa, hpages]
  have hd : (1024 : Nat) ∈ insert d ({1024} : Finset Nat) := by simp
  have hva : GET_L1_INDEX 0 ≠ uvptIndex := by
    rw [uvptIndex_eq, GET_L1_INDEX_eq]
    decide
  have hne : (1024 : Nat) ≠ d := by
    rintro rfl
    exact (hI₁.unused (pageAlloc_spec halloc₂).1 (pageAlloc_spec halloc₂).2.1).2.2
      ⟨0, by omega, Finset.mem_singleton_self _⟩
  have hnone₂ : mapping (envNewDir s₂ d) 1024 0 = none := by
    rw [mapping_envNewDir hI₁ halloc₂ hd hva, if_neg hne]
    exact hnone hva
  have hvis : visBit (envNewDir s₂ d) 0 = true := by
    have h₀ : visBit boardBoot 0 = true := by
      rw [boardBoot_eq, initBootPt_visBit, decide_eq_true_eq, inBootCode]
      decide
    have h₁ : visBit s₁ 0 = true := visBit_pageAlloc halloc h₀
    have h₂ : visBit s₂ 0 = true := visBit_pageAlloc halloc₂ h₁
    exact h₂
  have hperm : PTE_USER &&& pageNumberBits = 0 := by decide
  have hpage : 0 < NPAGE := by
    rw [NPAGE]
    omega
  have hfree₂ : FreePages 2 (envNewDir s₂ d) := hfree.of_vis rfl
  obtain ⟨s, hins⟩ := pageInsertNew_ok hfree₂ 1024 0 0 PTE_USER
  obtain ⟨hsound, -, hok, -⟩ := hsound₂.pageInsert hd hva hpage hvis hperm
  have hlinks : LinksOk (pageInsert (envNewDir s₂ d) 1024 0 0 PTE_USER).2 {d, 1024} :=
    LinksOk.pageInsert hsound₂.toPmapInv hlinks₂ hpa₂ (lt_KERNBASE (by decide)) hd hva
  rw [pageInsert_of_none hnone₂, hins] at hsound hok hlinks
  refine ⟨s, d, _, ⟨⟨hsound, fun e he => ?_⟩, rfl, ?_, rfl, ⟨1, ?_, ?_, hne.symm⟩,
    hlinks.linked hd⟩, (hok rfl).1, ?_⟩
  · by_cases h0 : e = 0
    · subst h0
      exact hd
    · by_cases h1 : e = 1
      · subst h1
        exact Finset.mem_insert_self d _
      · refine absurd ?_ he
        simp [boardFork, h0, h1, zeroEnv]
  · exact fun h => by cases h
  · rfl
  · exact fun h => by cases h
  · rw [leafEntry]
    intro h
    have hbit := congrArg (fun w : Word => w.getLsbD 6) h
    simp [PTE_USER] at hbit

end RpiMos
