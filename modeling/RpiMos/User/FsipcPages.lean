/-
  RpiMos.User.FsipcPages

  The pages that requests travel in: each client's request page stays its own,
  whatever the server and the kernel map and unmap.
-/

import RpiMos.User.Fsipc

namespace RpiMos

open Lib

/-! ## Request pages -/

section Pages

variable {boot : Nat → Nat} {dirs : Finset Nat} {C : EnvPtr → Prop} {fsipcbuf : EnvPtr → Word}
  {dirOf F : EnvPtr → Nat} {s s' : Pmap} {d f p : Nat} {c : EnvPtr} {va : Word}

/-- Frame `f` holds the request page of `c`: only `c` maps it, and the server
    while it works for `c`. -/
structure ReqPage (dirs : Finset Nat) (fsipcbuf : EnvPtr → Word) (dirOf : EnvPtr → Nat)
    (s : Pmap) (c : EnvPtr) (f : Nat) : Prop where
  here : ∃ e, mapping s (dirOf c) (fsipcbuf c) = some e ∧ pteFrame e = f
  table : ¬ IsTable s dirs f
  only : ∀ d ∈ dirs, ∀ va e, GET_L1_INDEX va ≠ uvptIndex → mapping s d va = some e →
    pteFrame e = f → d = dirOf c ∨ (d = dirOf 0 ∧ pageIdx va = pageIdx REQVA)

/-- What the environments of the system have fixed from the start: `idOf` their
    ids, `dirOf` the frames of their directories. -/
structure FsipcSetup (dirs : Finset Nat) (C : EnvPtr → Prop) (fsipcbuf : EnvPtr → Word)
    (idOf : EnvPtr → U32) (dirOf : EnvPtr → Nat) : Prop where
  server : ¬ C 0
  id : ∀ e, C e ∨ e = 0 → idOf e ≠ 0 ∧ ENVX (idOf e) = e
  dir : ∀ e, C e ∨ e = 0 → dirOf e ∈ dirs
  dir_inj : ∀ e e', C e ∨ e = 0 → C e' ∨ e' = 0 → dirOf e = dirOf e' → e = e'
  buf : ∀ c, C c → GET_L1_INDEX (fsipcbuf c) ≠ uvptIndex ∧ fsipcbuf c ≠ 0

structure MemOk (boot : Nat → Nat) (dirs : Finset Nat) (C : EnvPtr → Prop)
    (fsipcbuf : EnvPtr → Word) (dirOf F : EnvPtr → Nat) (s : Pmap) : Prop where
  sound : PmapSound boot dirs s
  page : ∀ c, C c → ReqPage dirs fsipcbuf dirOf s c (F c)

/-- Every request page keeps its words. -/
def PagesKept (C : EnvPtr → Prop) (F : EnvPtr → Nat) (s s' : Pmap) : Prop :=
  ∀ c, C c → s'.mem (F c) = s.mem (F c)

/-- An edit away from the request pages, that maps none of them elsewhere. -/
theorem MemOk.edit {idOf : EnvPtr → U32} (hset : FsipcSetup dirs C fsipcbuf idOf dirOf)
    (h : MemOk boot dirs C fsipcbuf dirOf F s) (hsound : PmapSound boot dirs s')
    (hed : Edited dirs d va s s')
    (hne : ∀ c, C c → ¬ (dirOf c = d ∧ pageIdx (fsipcbuf c) = pageIdx va))
    (hnew : ∀ c, C c → ∀ e, mapping s' d va = some e → pteFrame e = F c →
      mapping s d va = some e ∨ d = dirOf c ∨ (d = dirOf 0 ∧ pageIdx va = pageIdx REQVA))
    (hva : GET_L1_INDEX va ≠ uvptIndex) :
    MemOk boot dirs C fsipcbuf dirOf F s' ∧ PagesKept C F s s' := by
  have hused : ∀ c, C c → visBit s (F c) = true := by
    intro c hc
    obtain ⟨e, he, hf⟩ := (h.page c hc).here
    rw [← hf]
    exact h.sound.mapped_used (hset.dir c (Or.inl hc)) he
  refine ⟨⟨hsound, fun c hc => ?_⟩, fun c hc => hed.data (hused c hc) (h.page c hc).table⟩
  obtain ⟨⟨e, he, hf⟩, htab, honly⟩ := h.page c hc
  refine ⟨⟨e, ?_, hf⟩, fun ht => htab ((hed.table (hused c hc)).mp ht), ?_⟩
  · rw [hed.other (hset.dir c (Or.inl hc)) (hset.buf c hc).1 (hne c hc)]
    exact he
  · intro d' hd' va' e' hva' he' hf'
    by_cases hsame : d' = d ∧ pageIdx va' = pageIdx va
    · obtain ⟨rfl, hidx⟩ := hsame
      rw [mapping_congr_page hidx] at he'
      rw [hidx]
      rcases hnew c hc e' he' hf' with hold | hdir | hreq
      · exact honly d' hd' va e' hva hold hf'
      · exact Or.inl hdir
      · exact Or.inr hreq
    · rw [hed.other hd' hva' hsame] at he'
      exact honly d' hd' va' e' hva' he' hf'

/-- A client's own request page is its alone. -/
theorem MemOk.frame_inj {idOf : EnvPtr → U32} (hset : FsipcSetup dirs C fsipcbuf idOf dirOf)
    (h : MemOk boot dirs C fsipcbuf dirOf F s) {c' : EnvPtr} (hc : C c) (hc' : C c')
    (heq : F c' = F c) : c' = c := by
  obtain ⟨e, he, hf⟩ := (h.page c' hc').here
  rcases (h.page c hc).only _ (hset.dir c' (Or.inl hc')) _ e (hset.buf c' hc').1 he
    (hf.trans heq) with hdir | ⟨hdir, -⟩
  · exact hset.dir_inj c' c (Or.inl hc') (Or.inl hc) hdir
  · have h0 := hset.dir_inj c' 0 (Or.inl hc') (Or.inr rfl) hdir
    rw [h0] at hc'
    exact absurd hc' hset.server

/-- The slot for requests is no client's. -/
theorem FsipcSetup.req_ne {idOf : EnvPtr → U32} (hset : FsipcSetup dirs C fsipcbuf idOf dirOf)
    (va : Word) : ∀ c, C c → ¬ (dirOf c = dirOf 0 ∧ pageIdx (fsipcbuf c) = pageIdx va) := by
  rintro c hc ⟨hdir, -⟩
  have h0 := hset.dir_inj c 0 (Or.inl hc) (Or.inr rfl) hdir
  rw [h0] at hc
  exact hset.server hc

theorem REQVA_L1 : GET_L1_INDEX REQVA ≠ uvptIndex := by
  rw [uvptIndex_eq, GET_L1_INDEX_eq]
  decide

/-- The request page of `c` is mapped for the server. -/
theorem MemOk.request {idOf : EnvPtr → U32} (hset : FsipcSetup dirs C fsipcbuf idOf dirOf)
    (h : MemOk boot dirs C fsipcbuf dirOf F s) (hc : C c) :
    MemOk boot dirs C fsipcbuf dirOf F (pageInsert s (dirOf 0) (F c) REQVA reqPerm).2 ∧
    PagesKept C F s (pageInsert s (dirOf 0) (F c) REQVA reqPerm).2 ∧
    ((pageInsert s (dirOf 0) (F c) REQVA reqPerm).1 = true →
      ∃ e, mapping (pageInsert s (dirOf 0) (F c) REQVA reqPerm).2 (dirOf 0) REQVA = some e ∧
        pteFrame e = F c) := by
  obtain ⟨e, he, hf⟩ := (h.page c hc).here
  have hused := h.sound.mapped_used (hset.dir c (Or.inl hc)) he
  rw [hf] at hused
  have hlt : F c < NPAGE := hf ▸ pteFrame_lt e
  have hperm : reqPerm &&& pageNumberBits = 0 := by decide
  obtain ⟨hsound, hed, hok, -⟩ :=
    h.sound.pageInsert (hset.dir 0 (Or.inr rfl)) REQVA_L1 hlt hused hperm
  obtain ⟨hmem, hkept⟩ := h.edit hset hsound hed (hset.req_ne REQVA)
    (fun _ _ _ _ _ => Or.inr (Or.inr ⟨rfl, rfl⟩)) REQVA_L1
  exact ⟨hmem, hkept, fun h1 => ⟨_, (hok h1).1, (hok h1).2⟩⟩

/-- A reply page of the server is mapped for client `c`, whose request it is. -/
theorem MemOk.reply {idOf : EnvPtr → U32} (hset : FsipcSetup dirs C fsipcbuf idOf dirOf)
    (h : MemOk boot dirs C fsipcbuf dirOf F s) (hc : C c) {srcva dstva perm : Word} {t i : Nat}
    (hreq : ∃ e, mapping s (dirOf 0) REQVA = some e ∧ pteFrame e = F c)
    (hsrc : GET_L1_INDEX srcva ≠ uvptIndex) (hl : pageLookup s (dirOf 0) srcva = some (p, t, i))
    (hdst : GET_L1_INDEX dstva ≠ uvptIndex) (hbuf : pageIdx dstva ≠ pageIdx (fsipcbuf c))
    (hperm : perm &&& pageNumberBits = 0) :
    MemOk boot dirs C fsipcbuf dirOf F (pageInsert s (dirOf c) p dstva perm).2 ∧
    PagesKept C F s (pageInsert s (dirOf c) p dstva perm).2 ∧
    mapping (pageInsert s (dirOf c) p dstva perm).2 (dirOf 0) REQVA = mapping s (dirOf 0) REQVA := by
  have hd0 := hset.dir 0 (Or.inr rfl)
  have hdc := hset.dir c (Or.inl hc)
  obtain ⟨hm, hp⟩ := h.sound.lookup_eq hd0 hsrc hl
  have hused := h.sound.mapped_used hd0 hm
  rw [← hp] at hused
  obtain ⟨hsound, hed, hok, hfail⟩ := h.sound.pageInsert hdc hdst (hp ▸ pteFrame_lt _) hused hperm
  have hne : dirOf 0 ≠ dirOf c := by
    intro hdir
    have h0 := hset.dir_inj 0 c (Or.inr rfl) (Or.inl hc) hdir
    rw [← h0] at hc
    exact hset.server hc
  have haway : ∀ c', C c' → ¬ (dirOf c' = dirOf c ∧ pageIdx (fsipcbuf c') = pageIdx dstva) := by
    rintro c' hc' ⟨hdir, hidx⟩
    have h0 := hset.dir_inj c' c (Or.inl hc') (Or.inl hc) hdir
    rw [h0] at hidx
    exact hbuf hidx.symm
  have hown : ∀ c', C c' → ∀ e, mapping (pageInsert s (dirOf c) p dstva perm).2 (dirOf c) dstva =
      some e → pteFrame e = F c' → mapping s (dirOf c) dstva = some e ∨ dirOf c = dirOf c' ∨
        (dirOf c = dirOf 0 ∧ pageIdx dstva = pageIdx REQVA) := by
    intro c' hc' e he hf
    cases hr : (pageInsert s (dirOf c) p dstva perm).1 with
    | false =>
        rw [hfail hr] at he
        exact Or.inl he
    | true =>
        -- The page inserted is a request page only if the server has it at REQVA.
        right
        left
        rw [(hok hr).1, Option.some.injEq] at he
        rw [← he, (hok hr).2, hp] at hf
        obtain ⟨e₀, he₀, hf₀⟩ := hreq
        rcases (h.page c' hc').only _ hd0 _ _ hsrc hm hf with hdir | ⟨-, hidx⟩
        · have h0 := hset.dir_inj 0 c' (Or.inr rfl) (Or.inl hc') hdir
          rw [← h0] at hc'
          exact absurd hc' hset.server
        · rw [mapping_congr_page hidx, he₀, Option.some.injEq] at hm
          rw [← hm, hf₀] at hf
          rw [h.frame_inj hset hc hc' hf.symm]
  obtain ⟨hmem, hkept⟩ := h.edit hset hsound hed haway hown hdst
  exact ⟨hmem, hkept, hed.other hd0 REQVA_L1 fun hx => hne hx.1⟩

/-- The stores of a client into its request page. -/
theorem MemOk.store {idOf : EnvPtr → U32} (hset : FsipcSetup dirs C fsipcbuf idOf dirOf)
    (h : MemOk boot dirs C fsipcbuf dirOf F s) (hc : C c) (page : PageWords) :
    MemOk boot dirs C fsipcbuf dirOf F (s.storePage (F c) page) ∧
    (s.storePage (F c) page).loadPage (F c) = page ∧
    (∀ c', C c' → c' ≠ c → (s.storePage (F c) page).mem (F c') = s.mem (F c')) ∧
    mapping (s.storePage (F c) page) (dirOf 0) REQVA = mapping s (dirOf 0) REQVA := by
  have hmem : ∀ t, t ≠ F c → (s.storePage (F c) page).mem t = s.mem t := by
    intro t ht
    funext i
    simp [Pmap.storePage, ht]
  have htab : ∀ t, IsTable s dirs t → (s.storePage (F c) page).mem t = s.mem t := by
    intro t ht
    refine hmem t fun hf => ?_
    rw [hf] at ht
    exact (h.page c hc).table ht
  have hmap : ∀ {d va}, d ∈ dirs → GET_L1_INDEX va ≠ uvptIndex →
      mapping (s.storePage (F c) page) d va = mapping s d va :=
    fun hd hva => mapping_of_tables htab hd hva
  refine ⟨⟨⟨⟨h.sound.toPmapWf.of_tables htab rfl, h.sound.alloc⟩, fun d hd va e hva he => ?_⟩,
    fun c' hc' => ?_⟩, ?_, fun c' hc' hne => hmem _ fun hf => hne (h.frame_inj hset hc hc' hf),
    hmap (hset.dir 0 (Or.inr rfl)) REQVA_L1⟩
  · rw [hmap hd hva] at he
    exact h.sound.clear d hd va e hva he
  · obtain ⟨⟨e, he, hf⟩, hnt, honly⟩ := h.page c' hc'
    refine ⟨⟨e, by rw [hmap (hset.dir c' (Or.inl hc')) (hset.buf c' hc').1]; exact he, hf⟩, ?_, ?_⟩
    · rw [isTable_of_tables htab]
      exact hnt
    · intro d hd va e hva he hf
      rw [hmap hd hva] at he
      exact honly d hd va e hva he hf
  · funext i
    simp [Pmap.loadPage, Pmap.storePage]

variable {k : Kernel}

/-- The running environment is what id 0 names. -/
theorem envid2env_zero {b : Bool} {e : EnvPtr} (hcur : k.curenv = some c)
    (h : envid2env k 0 b = some e) : e = c := by
  rw [envid2env, if_pos rfl, hcur] at h
  exact (Option.some.inj h).symm

/-- The server gives a page back. -/
theorem MemOk.unmap {idOf : EnvPtr → U32} (hset : FsipcSetup dirs C fsipcbuf idOf dirOf)
    (h : MemOk boot dirs C fsipcbuf dirOf F k.pm) (hcur : k.curenv = some 0)
    (hdir : ∀ e, k.pgdir e = dirOf e) (hva : GET_L1_INDEX va ≠ uvptIndex) :
    MemOk boot dirs C fsipcbuf dirOf F (sysMemUnmap k 0 va).pm ∧
    PagesKept C F k.pm (sysMemUnmap k 0 va).pm ∧
    (pageIdx va ≠ pageIdx REQVA →
      mapping (sysMemUnmap k 0 va).pm (dirOf 0) REQVA = mapping k.pm (dirOf 0) REQVA) := by
  rcases sysMemUnmap_cases k 0 va with heq | ⟨env, henv, heq⟩
  · rw [heq]
    exact ⟨h, fun _ _ => rfl, fun _ => rfl⟩
  · rw [heq, envid2env_zero hcur henv, hdir]
    have hd0 := hset.dir 0 (Or.inr rfl)
    obtain ⟨hsound, hed, hnone⟩ := h.sound.pageRemove hd0 hva
    obtain ⟨hmem, hkept⟩ := h.edit hset hsound hed (hset.req_ne va)
      (fun _ _ e he _ => absurd (hnone.symm.trans he) (by simp)) hva
    exact ⟨hmem, hkept, fun hne => hed.other hd0 REQVA_L1 fun hx => hne hx.2.symm⟩

/-- A handler allocates a page, gives one back, or changes the perm of one. -/
theorem MemOk.own {idOf : EnvPtr → U32} (hset : FsipcSetup dirs C fsipcbuf idOf dirOf)
    (h : MemOk boot dirs C fsipcbuf dirOf F k.pm) (hcur : k.curenv = some 0)
    (hdir : ∀ e, k.pgdir e = dirOf e) {call : MemCall} (hown : OwnPage call) :
    MemOk boot dirs C fsipcbuf dirOf F (call.exec k).pm ∧ PagesKept C F k.pm (call.exec k).pm ∧
    mapping (call.exec k).pm (dirOf 0) REQVA = mapping k.pm (dirOf 0) REQVA := by
  have hd0 := hset.dir 0 (Or.inr rfl)
  cases call with
  | sys_mem_unmap envid va =>
      obtain ⟨rfl, hva, hne⟩ := hown
      obtain ⟨hmem, hkept, hreq⟩ := h.unmap hset hcur hdir hva
      exact ⟨hmem, hkept, hreq hne⟩
  | sys_mem_alloc envid va perm =>
      obtain ⟨rfl, hva, hne, hperm⟩ := hown
      rw [MemCall.exec]
      rcases sysMemAlloc_cases k 0 va perm with heq | ⟨env, pp, pm, henv, halloc, heq⟩
      · rw [heq]
        exact ⟨h, fun _ _ => rfl, rfl⟩
      · rw [heq, envid2env_zero hcur henv, hdir]
        obtain ⟨hpp, hfree, hvis, -⟩ := pageAlloc_spec halloc
        obtain ⟨hs₁, hg⟩ := h.sound.pageAlloc halloc
        obtain ⟨hsound, hed, hok, hfail⟩ := hs₁.pageInsert hd0 hva hpp hvis hperm
        have hed' := hg.trans_edited hed
        have hnew : ∀ c, C c → ∀ e, mapping (pageInsert pm (dirOf 0) pp va perm).2 (dirOf 0) va =
            some e → pteFrame e = F c → mapping k.pm (dirOf 0) va = some e ∨ dirOf 0 = dirOf c ∨
              (dirOf 0 = dirOf 0 ∧ pageIdx va = pageIdx REQVA) := by
          intro c hc e he hf
          cases hr : (pageInsert pm (dirOf 0) pp va perm).1 with
          | false =>
              rw [hfail hr, hg.map_eq hd0 hva] at he
              exact Or.inl he
          | true =>
              -- A page just allocated is no request page: those are in use.
              rw [(hok hr).1, Option.some.injEq] at he
              rw [← he, (hok hr).2] at hf
              obtain ⟨e₀, he₀, hf₀⟩ := (h.page c hc).here
              have hused := h.sound.mapped_used (hset.dir c (Or.inl hc)) he₀
              rw [hf₀, ← hf, hfree] at hused
              cases hused
        obtain ⟨hmem, hkept⟩ := h.edit hset hsound hed' (hset.req_ne va) hnew hva
        exact ⟨hmem, hkept, hed'.other hd0 REQVA_L1 fun hx => hne hx.2.symm⟩
  | sys_mem_map srcid srcva dstid dstva perm =>
      obtain ⟨rfl, rfl, rfl, hva, hne, hperm⟩ := hown
      rw [MemCall.exec]
      rcases sysMemMap_cases k 0 srcva 0 srcva perm with heq | ⟨se, de, q, t, i, hse, hde, hl, heq⟩
      · rw [heq]
        exact ⟨h, fun _ _ => rfl, rfl⟩
      · rw [heq, envid2env_zero hcur hde, hdir, pa2page_PTE_ADDR]
        rw [envid2env_zero hcur hse, hdir] at hl
        have hva' : GET_L1_INDEX (ROUNDDOWN srcva) ≠ uvptIndex := by
          rw [ROUNDDOWN_L1]
          exact hva
        have hne' : pageIdx (ROUNDDOWN srcva) ≠ pageIdx REQVA := by
          rw [ROUNDDOWN_pageIdx]
          exact hne
        obtain ⟨hm, -⟩ := h.sound.lookup_eq hd0 hva' hl
        have hused := h.sound.mapped_used hd0 hm
        obtain ⟨hsound, hed, hok, hfail⟩ :=
          h.sound.pageInsert hd0 hva' (pteFrame_lt _) hused hperm
        have hnew : ∀ c, C c → ∀ e, mapping (pageInsert k.pm (dirOf 0) (pteFrame (k.pm.mem t i))
            (ROUNDDOWN srcva) perm).2 (dirOf 0) (ROUNDDOWN srcva) = some e → pteFrame e = F c →
            mapping k.pm (dirOf 0) (ROUNDDOWN srcva) = some e ∨ dirOf 0 = dirOf c ∨
              (dirOf 0 = dirOf 0 ∧ pageIdx (ROUNDDOWN srcva) = pageIdx REQVA) := by
          intro c hc e he hf
          cases hr : (pageInsert k.pm (dirOf 0) (pteFrame (k.pm.mem t i)) (ROUNDDOWN srcva) perm).1 with
          | false =>
              rw [hfail hr] at he
              exact Or.inl he
          | true =>
              rw [(hok hr).1, Option.some.injEq] at he
              rw [← he, (hok hr).2] at hf
              rcases (h.page c hc).only _ hd0 _ _ hva' hm hf with hdir | ⟨-, hidx⟩
              · exact Or.inr (Or.inl hdir)
              · exact absurd hidx hne'
        obtain ⟨hmem, hkept⟩ := h.edit hset hsound hed (hset.req_ne _) hnew hva'
        exact ⟨hmem, hkept, hed.other hd0 REQVA_L1 fun hx => hne' hx.2.symm⟩

end Pages

end RpiMos
