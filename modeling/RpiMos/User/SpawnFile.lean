/-
  RpiMos.User.SpawnFile

  `spawn` reads its program into two buffers on the stack and takes lengths, seek
  positions and counts from what it has read.  Which files keep the reads inside
  the buffers, and every header field that is used one that was read, is told from
  the file alone.
-/

import RpiMos.User.Spawn

namespace RpiMos

open Lib

variable {os : Os} {file : ProgFile} {s s' s₁ : SpawnSt} {p q : Prop} {e : Event} {r : U32}

/-! ## What a step adds -/

/-- Stores stay inside their buffer; the fields used were read. -/
def SafeEvent : Event → Prop
  | .stored b start n => start + n ≤ b.size
  | .used got off len => off + len ≤ got
  | _ => True

/-- Events have been added, safe ones if `p` holds. -/
def Grew (p : Prop) (s s' : SpawnSt) : Prop :=
  ∃ new, s'.log = s.log ++ new ∧ (p → ∀ e ∈ new, SafeEvent e)

theorem Grew.refl (p : Prop) (s : SpawnSt) : Grew p s s :=
  ⟨[], (List.append_nil _).symm, fun _ _ h => absurd h List.not_mem_nil⟩

theorem Grew.trans (h : Grew p s s₁) (h' : Grew p s₁ s') : Grew p s s' := by
  obtain ⟨new, hlog, hsafe⟩ := h
  obtain ⟨new', hlog', hsafe'⟩ := h'
  refine ⟨new ++ new', by rw [hlog', hlog, List.append_assoc], fun hp e he => ?_⟩
  rcases List.mem_append.mp he with he | he
  · exact hsafe hp e he
  · exact hsafe' hp e he

theorem Grew.mono (h : Grew p s s') (hqp : q → p) : Grew q s s' := by
  obtain ⟨new, hlog, hsafe⟩ := h
  exact ⟨new, hlog, fun hq => hsafe (hqp hq)⟩

theorem Grew.mem (h : Grew p s s') (he : e ∈ s.log) : e ∈ s'.log := by
  obtain ⟨new, hlog, -⟩ := h
  rw [hlog]
  exact List.mem_append_left new he

/-- One event. -/
theorem Grew.one (hlog : s'.log = s.log ++ [e]) (he : p → SafeEvent e) : Grew p s s' := by
  refine ⟨[e], hlog, fun hp e' he' => ?_⟩
  rw [List.mem_singleton.mp he']
  exact he hp

/-- No answer is an error. -/
def Calm (os : Os) : Prop := ∀ log q, ((os log q).setWidth 32).msb = false

/-- The way out with an error: the error is an answer, and what was added is safe
    if `p` holds. -/
def GaveUp (os : Os) (p : Prop) (s : SpawnSt) (r : U32) (s' : SpawnSt) : Prop :=
  r.msb = true ∧ ¬ Calm os ∧ Grew p s s'

theorem GaveUp.after (h : GaveUp os p s₁ r s') (hg : Grew p s s₁) : GaveUp os p s r s' :=
  ⟨h.1, h.2.1, hg.trans h.2.2⟩

theorem GaveUp.mono (h : GaveUp os p s r s') (hqp : q → p) : GaveUp os q s r s' :=
  ⟨h.1, h.2.1, h.2.2.mono hqp⟩

/-- The fields that only reads change. -/
structure SameBufs (s s' : SpawnSt) : Prop where
  bufs : s'.bufs = s.bufs
  fd_offset : s'.fd_offset = s.fd_offset

/-- `x` adds events, safe ones if `p` holds, and gives up only on an error. -/
def Grows (os : Os) (p : Prop) (x : SpawnM α) (s : SpawnSt) (Q : α → SpawnSt → Prop) : Prop :=
  x.Sat s (fun a s' => Grew p s s' ∧ Q a s') (GaveUp os p s)

variable {α β : Type} {x : SpawnM α} {f : α → SpawnM β} {Q Q' : α → SpawnSt → Prop}
  {R : β → SpawnSt → Prop}

theorem Grows.bind (h : Grows os p x s Q)
    (hf : ∀ a s', Grew p s s' → Q a s' → Grows os p (f a) s' R) : Grows os p (x >>= f) s R := by
  refine Prog.Sat.bind h fun a s₁ ⟨hg, hQ⟩ => ?_
  refine (hf a s₁ hg hQ).mono (fun b s₂ ⟨hg₂, hR⟩ => ⟨hg.trans hg₂, hR⟩) fun r s₂ h₂ => ?_
  exact h₂.after hg

theorem Grows.mono (h : Grows os p x s Q) (hqp : q → p)
    (hQ : ∀ a s', Grew p s s' → Q a s' → Q' a s') : Grows os q x s Q' :=
  Prog.Sat.mono h (fun a s' ⟨hg, h⟩ => ⟨hg.mono hqp, hQ a s' hg h⟩) fun _ _ h => h.mono hqp

theorem Grows.pure {a : α} (h : Q a s) : Grows os p (Pure.pure a) s Q := ⟨.refl p s, h⟩

/-- A look at the state. -/
theorem Grows.get {f : SpawnSt → SpawnM β} (h : Grows os p (f s) s R) :
    Grows os p (Prog.get >>= f) s R :=
  Prog.Sat.bind_ret (Prog.get_apply s) h

theorem Grows.emit (he : p → SafeEvent e) (s : SpawnSt) :
    Grows os p (emit e) s fun _ s' => SameBufs s s' ∧ e ∈ s'.log :=
  ⟨.one rfl he, ⟨rfl, rfl⟩, List.mem_append_right _ (List.mem_singleton_self e)⟩

theorem Grows.ask (q : Query) (s : SpawnSt) :
    Grows os p (ask os q) s fun r s' => r = os s.log q ∧ SameBufs s s' :=
  ⟨.one rfl fun _ => trivial, rfl, ⟨rfl, rfl⟩⟩

theorem Grows.askInt (q : Query) (s : SpawnSt) :
    Grows os p (askInt os q) s fun r s' => r = (os s.log q).setWidth 32 ∧ SameBufs s s' :=
  ⟨.one rfl fun _ => trivial, rfl, ⟨rfl, rfl⟩⟩

theorem Grows.must (q : Query) (s : SpawnSt) :
    Grows os p (must os q) s fun _ s' => SameBufs s s' := by
  unfold RpiMos.must
  refine Prog.Sat.bind_ret (askInt_apply os q s) ?_
  split
  · rename_i hneg
    refine ⟨hneg, fun hcalm => ?_, .one rfl fun _ => trivial⟩
    rw [hcalm s.log q] at hneg
    cases hneg
  · exact ⟨.one rfl fun _ => trivial, rfl, rfl⟩

/-- A loop whose turns each keep what the earlier ones left. -/
theorem Grows.forRange {body : Nat → SpawnM PUnit} {n : Nat} {W : Nat → SpawnSt → Prop}
    (hW : ∀ j s s', Grew p s s' → W j s → W j s')
    (hbody : ∀ j < n, ∀ s, Grows os p (body j) s fun _ s' => W j s') (s : SpawnSt) :
    Grows os p (Prog.forRange 0 n body) s fun _ s' => ∀ j < n, W j s' := by
  have hloop := Prog.Sat.forRange (i := 0) (n := n) (s := s) (E := GaveUp os p s)
    (I := fun i s' => Grew p s s' ∧ ∀ j < i, W j s')
    ⟨.refl p s, fun j hj => absurd hj (Nat.not_lt_zero j)⟩
    fun i _ hi s₁ ⟨hg, hdone⟩ => (?_ : (body i).Sat s₁ _ _)
  · rw [Nat.zero_add] at hloop
    exact hloop
  · refine Prog.Sat.mono (hbody i (by omega) s₁)
      (fun _ s₂ ⟨hg₂, hw⟩ => ⟨hg.trans hg₂, fun j hj => ?_⟩) fun r s₂ h => h.after hg
    by_cases hji : j = i
    · subst hji
      exact hw
    · exact hW j s₁ s₂ hg₂ (hdone j (by omega))

/-- The values of `i` in the turns of `chunkLoop`. -/
def chunkStarts (limit : Word) (i : U32) : List U32 :=
  if _h : intWord i < limit then
    i :: chunkStarts limit ((intWord i + minWord 4096 (limit - intWord i)).setWidth 32)
  else []
termination_by 2 ^ 64 - (intWord i).toNat
decreasing_by exact intWord_next _h

theorem mem_chunkStarts {limit : Word} {i j : U32} (h : j ∈ chunkStarts limit i) :
    intWord j < limit := by
  fun_induction chunkStarts limit i with
  | case1 i hlt ih =>
      rcases List.mem_cons.mp h with rfl | h
      · exact hlt
      · exact ih h
  | case2 i hge => exact absurd h List.not_mem_nil

theorem Grows.chunkLoop {limit : Word} {body : U32 → Word → SpawnM PUnit} {i : U32}
    {W : U32 → SpawnSt → Prop} (hW : ∀ j s s', Grew p s s' → W j s → W j s')
    (hbody : ∀ j ∈ chunkStarts limit i, ∀ s,
      Grows os p (body j (minWord 4096 (limit - intWord j))) s fun _ s' => W j s') (s : SpawnSt) :
    Grows os p (chunkLoop limit body i) s fun _ s' => ∀ j ∈ chunkStarts limit i, W j s' := by
  fun_induction chunkStarts limit i generalizing s with
  | case1 i hlt ih =>
      rw [RpiMos.chunkLoop, dif_pos hlt]
      refine (hbody i List.mem_cons_self s).bind fun _ s₁ _ hw => ?_
      have hrest := ih (fun j hj => hbody j (List.mem_cons_of_mem i hj)) s₁
      refine Prog.Sat.mono hrest (fun _ s₂ ⟨hg, hall⟩ => ⟨hg, fun j hj => ?_⟩) fun _ _ h => h
      rcases List.mem_cons.mp hj with rfl | hj
      · exact hW _ s₁ s₂ hg hw
      · exact hall j hj
  | case2 i hge =>
      rw [RpiMos.chunkLoop, dif_neg hge]
      exact .pure fun j hj => absurd hj List.not_mem_nil

/-! ## Reading -/

/-- How many of `n` bytes the file has from the seek position on. -/
def available (file : ProgFile) (pos : Word) (n : Nat) : Nat :=
  min n (file.size - (pos.setWidth 32).toNat)

theorem fileRead_eq (file : ProgFile) {n : Nat} (hn : n < 2 ^ 31) (offset : U32) :
    (fileRead file (BitVec.ofNat 32 n) offset).toNat = min n (file.size - offset.toNat) := by
  have hsize := file.size_le
  have hs : (BitVec.ofNat 32 file.size).toNat = file.size := by
    rw [BitVec.toNat_ofNat]
    omega
  have hn' : (BitVec.ofNat 32 n).toNat = n := by
    rw [BitVec.toNat_ofNat]
    omega
  have hlt := offset.isLt
  unfold fileRead
  simp only [BitVec.lt_def, hs]
  split
  · show 0 = _
    omega
  · rw [BitVec.toNat_add, hn']
    split
    · rw [BitVec.toNat_sub_of_le (by rw [BitVec.le_def, hs]; omega), hs]
      omega
    · rw [hn']
      omega

/-- What `read` does once the descriptor is found. -/
def SpawnSt.afterRead (s : SpawnSt) (file : ProgFile) (b : Buf) (start m : Nat) : SpawnSt :=
  { s with
    fd_offset := s.fd_offset + BitVec.ofNat 64 m
    bufs := fun b' => if b' = b then
        fillBuf file (s.bufs b) start m (s.fd_offset.setWidth 32).toNat else s.bufs b'
    log := s.log ++ [.stored b start (m + 1)] }

theorem read_sat (os : Os) (file : ProgFile) (b : Buf) (start : Nat) {n : Nat}
    (hn : n < 2 ^ 31) (s : SpawnSt) : (read os file b start n).Sat s
      (fun m s' => m = available file s.fd_offset n ∧
        ∃ s₁, Grew True s s₁ ∧ SameBufs s s₁ ∧ s' = s₁.afterRead file b start m)
      (GaveUp os True s) := by
  unfold read
  refine Prog.Sat.bind (Grows.must .fd_lookup s) fun _ s₁ ⟨hgrew, hsame⟩ => ?_
  have hm := fileRead_eq file hn (s₁.fd_offset.setWidth 32)
  refine Prog.Sat.bind_ret (Prog.get_apply s₁) ?_
  refine Prog.Sat.bind_ret (Prog.modify_apply _ s₁) ?_
  refine ⟨?_, s₁, hgrew, hsame, rfl⟩
  rw [available, ← hsame.fd_offset]
  exact hm

/-- What `readn` leaves: the bytes there are, in the buffer, and the events. -/
structure ReadDone (file : ProgFile) (b : Buf) (n : Nat) (pos : Word) (tot : Nat) (s' : SpawnSt) :
    Prop where
  count : tot = available file pos n
  bytes : ∀ k < tot, s'.bufs b k = file.byte ((pos.setWidth 32).toNat + k)
  stored : 0 < n → .stored b 0 (tot + 1) ∈ s'.log

theorem afterRead_grew (s : SpawnSt) (b : Buf) (start m : Nat) :
    Grew (start + (m + 1) ≤ b.size) s (s.afterRead file b start m) :=
  .one rfl fun h => h

theorem afterRead_bytes (s : SpawnSt) (b : Buf) (start m : Nat) {x : Nat} :
    (s.afterRead file b start m).bufs b x =
      if x = start + m then 0
      else if start ≤ x ∧ x < start + m then
        file.byte (x - start + (s.fd_offset.setWidth 32).toNat)
      else s.bufs b x := by
  show (if b = b then fillBuf file (s.bufs b) start m (s.fd_offset.setWidth 32).toNat
    else s.bufs b) x = _
  rw [if_pos rfl, fillBuf, ByteMem.st8, ByteMem.fill]

/-- The low half of a seek position after a read. -/
theorem low_add {pos : Word} {m : Nat} (h : (pos.setWidth 32).toNat + m < 2 ^ 32) :
    ((pos + BitVec.ofNat 64 m).setWidth 32).toNat = (pos.setWidth 32).toNat + m := by
  simp only [BitVec.toNat_setWidth, BitVec.toNat_add, BitVec.toNat_ofNat] at h ⊢
  omega

theorem readn_grows (os : Os) (file : ProgFile) (b : Buf) {n : Nat} (hn : n < 2 ^ 31) (s : SpawnSt) :
    Grows os (available file s.fd_offset n + 1 ≤ b.size) (readn os file b n) s
      (ReadDone file b n s.fd_offset) := by
  have hsize := file.size_le
  have hfrom : Grows os (available file s.fd_offset n + 1 ≤ b.size) (readnFrom os file b n 0) s
      (ReadDone file b n s.fd_offset) := by
    rw [readnFrom]
    split
    · rename_i hpos
      refine Prog.Sat.bind ((read_sat os file b 0 hn s).mono (fun _ _ h => h) fun _ _ h =>
        h.mono fun _ => trivial) ?_
      rintro m s₂ ⟨hm, s₁, hg₁, hsame, rfl⟩
      have hoff := hsame.fd_offset
      have hg₂ : Grew (available file s.fd_offset n + 1 ≤ b.size) s (s₁.afterRead file b 0 m) :=
        (hg₁.mono fun _ => trivial).trans ((afterRead_grew s₁ b 0 m).mono fun h => by omega)
      have hmark : Event.stored b 0 (m + 1) ∈ (s₁.afterRead file b 0 m).log :=
        List.mem_append_right _ (List.mem_singleton_self _)
      have hbytes : ∀ k < m, (s₁.afterRead file b 0 m).bufs b k =
          file.byte ((s.fd_offset.setWidth 32).toNat + k) := by
        intro k hk
        rw [afterRead_bytes, if_neg (by omega), if_pos (by omega), hoff]
        congr 1
        omega
      split
      · rename_i hzero
        subst hzero
        exact ⟨hg₂, hm, fun k hk => absurd hk (Nat.not_lt_zero k), fun _ => hmark⟩
      · rename_i hne
        rw [Nat.zero_add, readnFrom]
        split
        · -- The file is at its end: the next read gets nothing.
          rename_i hlt
          have hm' := hm
          rw [available] at hm'
          have hoff₂ : ((s₁.afterRead file b 0 m).fd_offset.setWidth 32).toNat =
              (s.fd_offset.setWidth 32).toNat + m := by
            show ((s₁.fd_offset + BitVec.ofNat 64 m).setWidth 32).toNat = _
            rw [hoff]
            exact low_add (by omega)
          have hread := read_sat os file b m (n := n - m) (by omega) (s₁.afterRead file b 0 m)
          refine Prog.Sat.bind (hread.mono (fun _ _ h => h) fun _ _ h =>
            (h.mono fun _ => trivial).after hg₂) ?_
          rintro m₂ s₄ ⟨hm₂, s₃, hg₃, hsame₃, rfl⟩
          have hzero : m₂ = 0 := by
            rw [hm₂, available, hoff₂]
            omega
          subst hzero
          rw [if_pos rfl]
          refine ⟨?_, hm, fun k hk => ?_, fun _ => ?_⟩
          · refine (hg₂.trans (hg₃.mono fun _ => trivial)).trans ?_
            exact (afterRead_grew s₃ b m 0).mono fun h => by omega
          · rw [afterRead_bytes, if_neg (by omega), if_neg (by omega), hsame₃.bufs]
            exact hbytes k hk
          · exact (afterRead_grew s₃ b m 0).mem (hg₃.mem hmark)
        · exact ⟨hg₂, hm, hbytes, fun _ => hmark⟩
    · rename_i hzero
      have h0 : n = 0 := by omega
      subst h0
      refine ⟨.refl _ s, ?_, fun k hk => absurd hk (Nat.not_lt_zero k),
        fun h => absurd h (by omega)⟩
      rw [available, Nat.zero_min]
  unfold readn
  refine hfrom.bind fun tot s₁ _ h => ?_
  refine (Grows.emit (e := .readn b n tot) (fun _ => trivial) s₁).bind fun _ s₂ hg ⟨hsame, _⟩ => ?_
  refine .pure ⟨h.count, fun k hk => ?_, fun hpos => hg.mem (h.stored hpos)⟩
  rw [hsame.bufs]
  exact h.bytes k hk

/-! ## Segments -/

theorem Grows.modify {f : SpawnSt → SpawnSt} (hlog : (f s).log = s.log) :
    Grows os p (Prog.modify f) s fun _ s' => s' = f s :=
  ⟨⟨[], hlog.trans (List.append_nil _).symm, fun _ _ h => absurd h List.not_mem_nil⟩, rfl⟩

theorem seek_grows (pos : Word) (s : SpawnSt) :
    Grows os p (seek os pos) s fun _ s' => s'.fd_offset = pos := by
  unfold seek
  refine (Grows.must .fd_lookup s).bind fun _ s₁ _ _ => ?_
  refine (Grows.modify rfl).mono (fun h => h) ?_
  rintro _ s₂ _ rfl
  rfl

variable {ph : Phdr} {child : U32}

/-- What `readn` gets for the page of turn `i`. -/
def pageBytes (file : ProgFile) (ph : Phdr) (i : U32) (size : Word) : Nat :=
  available file (ph.offset + intWord i) size.toNat

theorem loadPage_grows (offset : Word) (i : U32) {size : Word} (hsize : size.toNat ≤ 4096)
    (s : SpawnSt) :
    Grows os (pageBytes file ph i size + 1 ≤ 4096) (loadPage os file ph child offset i size) s
      fun _ s' => 0 < size.toNat → .stored .buf 0 (pageBytes file ph i size + 1) ∈ s'.log := by
  unfold loadPage
  refine (Grows.must _ s).bind fun _ s₁ _ _ => ?_
  refine (seek_grows _ s₁).bind fun _ s₂ _ hpos => ?_
  have hread := readn_grows os file .buf (n := size.toNat) (by omega) s₂
  rw [hpos] at hread
  refine hread.bind fun tot s₃ _ hdone => ?_
  refine (Grows.must _ s₃).bind fun _ s₄ hg₄ _ => ?_
  refine Grows.get ?_
  refine (Grows.emit (e := .bufpage offset.toNat size.toNat (s₄.bufs .buf)) (fun _ => trivial)
    s₄).bind fun _ s₅ hg₅ _ => ?_
  refine (Grows.must _ s₅).mono (fun h => h) fun _ s₆ hg₆ _ hpos => ?_
  have hstored := hdone.stored hpos
  rw [hdone.count] at hstored
  exact hg₆.mem (hg₅.mem (hg₄.mem hstored))

theorem zeroTail_grows (i : U32) (s : SpawnSt) :
    Grows os p (zeroTail os ph child i) s fun _ _ => True := by
  unfold zeroTail
  simp only
  split
  · exact .pure trivial
  · refine (Grows.must _ s).bind fun _ s₁ _ _ => ?_
    refine (Grows.emit (e := .bufpage _ _ _) (fun _ => trivial) s₁).bind fun _ s₂ _ _ => ?_
    refine (Grows.must _ s₂).bind fun _ s₃ _ _ => ?_
    exact .pure trivial

/-- `i` after the first page. -/
def firstBytes (ph : Phdr) : U32 :=
  if pageOffset ph.vaddr = 0 then 0
  else (minWord ph.filesz (4096 - pageOffset ph.vaddr)).setWidth 32

theorem loadFirst_grows (s : SpawnSt) :
    Grows os p (loadFirst os file ph child) s fun i _ => i = firstBytes ph := by
  have hoff := toNat_pageOffset ph.vaddr
  unfold loadFirst firstBytes
  simp only
  split
  · exact .pure rfl
  · rename_i hne
    have hpos : (pageOffset ph.vaddr).toNat ≠ 0 := fun h => hne (BitVec.eq_of_toNat_eq h)
    have hrest : (4096 - pageOffset ph.vaddr).toNat = 4096 - (pageOffset ph.vaddr).toNat := by
      rw [BitVec.toNat_sub_of_le (by rw [BitVec.le_def]; show _ ≤ 4096; omega)]
      rfl
    have hsize := toNat_minWord ph.filesz (4096 - pageOffset ph.vaddr)
    rw [hrest] at hsize
    have hfits : pageBytes file ph 0 (minWord ph.filesz (4096 - pageOffset ph.vaddr)) + 1 ≤ 4096 := by
      rw [pageBytes, available]
      omega
    refine ((loadPage_grows _ 0 (by omega) s).mono (fun _ => hfits) fun _ _ _ h => h).bind
      fun _ s₁ _ _ => ?_
    exact .pure rfl

/-- No page of the segment but the first lies wholly in the file. -/
def NoFullPage (file : ProgFile) (ph : Phdr) : Prop :=
  ∀ i ∈ chunkStarts ph.filesz (firstBytes ph),
    pageBytes file ph i (minWord 4096 (ph.filesz - intWord i)) < 4096

theorem usrLoadElf_grows (s : SpawnSt) :
    Grows os (NoFullPage file ph) (usrLoadElf os file ph child) s fun _ s' =>
      ∀ i ∈ chunkStarts ph.filesz (firstBytes ph),
        .stored .buf 0 (pageBytes file ph i (minWord 4096 (ph.filesz - intWord i)) + 1) ∈ s'.log := by
  unfold usrLoadElf
  refine (loadFirst_grows s).bind fun i s₁ _ hi => ?_
  subst hi
  refine (Grows.chunkLoop (W := fun i s' => Event.stored .buf 0
    (pageBytes file ph i (minWord 4096 (ph.filesz - intWord i)) + 1) ∈ s'.log)
    (fun _ _ _ hg h => hg.mem h) (fun j hj s => ?_) s₁).bind fun i s₂ _ hmarks => ?_
  · have hlt := mem_chunkStarts hj
    obtain ⟨hsize, -⟩ := chunk_sum hlt
    rw [BitVec.lt_def] at hlt
    refine (loadPage_grows 0 j (by omega) s).mono (fun hno => hno j hj) fun _ s' _ h => h (by omega)
  · refine (zeroTail_grows i s₂).bind fun i s₃ hg₃ _ => ?_
    refine (Grows.chunkLoop (W := fun _ _ => True) (fun _ _ _ _ _ => trivial) (fun j _ s => ?_)
      s₃).bind fun i s₄ hg₄ _ => ?_
    · exact (Grows.must _ s).mono (fun h => h) fun _ _ _ _ => trivial
    · exact .pure fun i hi => hg₄.mem (hg₃.mem (hmarks i hi))

/-! ## Program headers -/

/-- The program header at `pos` in the file. -/
def entryAt (file : ProgFile) (pos : Nat) : Phdr := phdrAt fun a => file.byte (pos + a)

theorem phdrAt_congr {m m' : ByteMem} {n : Nat} (h : ∀ k < n, m' k = m k) :
    (4 ≤ n → (phdrAt m').type = (phdrAt m).type) ∧ (48 ≤ n → phdrAt m' = phdrAt m) := by
  have hsame : ∀ a k, a + k ≤ n → ByteMem.Same m m' a k :=
    fun a k hak x _ hx => h x (by omega)
  have htype : 4 ≤ n → m'.ld32 0 = m.ld32 0 := fun hn => (hsame 0 4 (by omega)).ld32
  refine ⟨htype, fun hn => ?_⟩
  unfold phdrAt
  rw [htype (by omega), (hsame 8 8 (by omega)).ld64, (hsame 16 8 (by omega)).ld64,
    (hsame 32 8 (by omega)).ld64, (hsame 40 8 (by omega)).ld64]

/-- All that has happened is safe. -/
def AllSafe (s : SpawnSt) : Prop := ∀ e ∈ s.log, SafeEvent e

theorem Grew.allSafe (h : Grew p s s') (hs : AllSafe s') : AllSafe s :=
  fun e he => hs e (h.mem he)

/-- The program header at `text_start` fits `elfbuf`, its fields are there, and it
    loads no page that lies wholly in the file. -/
def EntryOk (file : ProgFile) (entry_size : Nat) (text_start : Word) : Prop :=
  available file text_start entry_size < 512 ∧ 4 ≤ available file text_start entry_size ∧
  ((entryAt file (text_start.setWidth 32).toNat).type = PT_LOAD →
    48 ≤ available file text_start entry_size ∧
    NoFullPage file (entryAt file (text_start.setWidth 32).toNat))

theorem loadEntry_grows {entry_size : Nat} (hsize : entry_size < 2 ^ 16) (text_start : Word)
    (s : SpawnSt) :
    Grows os (EntryOk file entry_size text_start) (loadEntry os file child entry_size text_start) s
      fun _ s' => AllSafe s' → EntryOk file entry_size text_start := by
  unfold loadEntry
  refine (seek_grows text_start s).bind fun _ s₁ _ hpos => ?_
  have hread := readn_grows os file .elfbuf (n := entry_size) (by omega) s₁
  rw [hpos] at hread
  refine (hread.mono (fun h => ?_) fun _ _ _ h => h).bind fun got s₂ _ hdone => ?_
  · exact h.1
  obtain ⟨rfl, hbytes, hstored⟩ := hdone
  refine Grows.get ?_
  have hfields := phdrAt_congr hbytes
  change (_ → _ = (entryAt file (text_start.setWidth 32).toNat).type) ∧
    (_ → _ = entryAt file (text_start.setWidth 32).toNat) at hfields
  obtain ⟨htype, hall⟩ := hfields
  have hless : available file text_start entry_size ≤ entry_size := Nat.min_le_left _ _
  unfold EntryOk
  generalize available file text_start entry_size = got at *
  refine (Grows.emit (e := .used got 0 4) (fun h => ?_) s₂).bind fun _ s₃ hg₃ hused => ?_
  · have h4 := h.2.1
    show 0 + 4 ≤ got
    omega
  -- What a safe log says of the read and of the type.
  have hsafe : AllSafe s₃ → got < 512 ∧ 4 ≤ got := by
    intro hs
    have h4 : 0 + 4 ≤ got := hs _ hused.2
    have h512 : 0 + (got + 1) ≤ 512 := hs _ (hg₃.mem (hstored (by omega)))
    omega
  split
  · rename_i hload
    refine (Grows.emit (e := .used got 8 16) (fun h => ?_) s₃).bind fun _ s₄ hg₄ _ => ?_
    · obtain ⟨-, h4, hseg⟩ := h
      obtain ⟨h48, -⟩ := hseg ((htype h4).symm.trans hload)
      show 8 + 16 ≤ got
      omega
    refine (Grows.emit (e := .used got 32 16) (fun h => ?_) s₄).bind fun _ s₅ hg₅ hused₅ => ?_
    · obtain ⟨-, h4, hseg⟩ := h
      obtain ⟨h48, -⟩ := hseg ((htype h4).symm.trans hload)
      show 32 + 16 ≤ got
      omega
    refine (usrLoadElf_grows s₅).mono (fun h => ?_) fun _ s₆ hg₆ hmarks hs => ?_
    · obtain ⟨-, h4, hseg⟩ := h
      obtain ⟨h48, hno⟩ := hseg ((htype h4).symm.trans hload)
      rw [hall h48]
      exact hno
    · have hs₅ := hg₆.allSafe hs
      obtain ⟨h512, h4⟩ := hsafe (hg₄.allSafe (hg₅.allSafe hs₅))
      have h48 : 32 + 16 ≤ got := hs₅ _ hused₅.2
      rw [hall h48] at hmarks
      refine ⟨h512, h4, fun _ => ⟨h48, fun i hi => ?_⟩⟩
      have hchunk : 0 + (_ + 1) ≤ 4096 := hs _ (hmarks i hi)
      omega
  · rename_i hother
    refine .pure fun hs => ?_
    obtain ⟨h512, h4⟩ := hsafe hs
    exact ⟨h512, h4, fun hload => absurd ((htype h4).trans hload) hother⟩

theorem loadEntries_grows (os : Os) (file : ProgFile) (child : U32) {entry_size : Nat}
    (hsize : entry_size < 2 ^ 16) (n : Nat) (text_start : Word) (s : SpawnSt) :
    Grows os (∀ i < n, EntryOk file entry_size (text_start + BitVec.ofNat 64 (i * entry_size)))
      (loadEntries os file child entry_size n text_start) s fun _ s' => AllSafe s' →
        ∀ i < n, EntryOk file entry_size (text_start + BitVec.ofNat 64 (i * entry_size)) := by
  induction n generalizing text_start s with
  | zero => exact .pure fun _ i hi => absurd hi (Nat.not_lt_zero i)
  | succ n ih =>
      have hfirst : text_start + BitVec.ofNat 64 (0 * entry_size) = text_start := by
        rw [Nat.zero_mul]
        exact BitVec.add_zero _
      have hnext : ∀ i, text_start + BitVec.ofNat 64 entry_size + BitVec.ofNat 64 (i * entry_size) =
          text_start + BitVec.ofNat 64 ((i + 1) * entry_size) := by
        intro i
        rw [BitVec.add_assoc, ← BitVec.ofNat_add, Nat.add_mul, Nat.one_mul, Nat.add_comm entry_size]
      unfold loadEntries
      refine ((loadEntry_grows hsize text_start s).mono (fun h => ?_) fun _ _ _ h => h).bind
        fun _ s₁ _ hentry => ?_
      · have h0 := h 0 (by omega)
        rw [hfirst] at h0
        exact h0
      refine (ih (text_start + BitVec.ofNat 64 entry_size) s₁).mono (fun h i hi => ?_)
        fun _ s₂ hg hrest hs i hi => ?_
      · rw [hnext]
        exact h (i + 1) (by omega)
      · cases i with
        | zero =>
            rw [hfirst]
            exact hentry (hg.allSafe hs)
        | succ i =>
            rw [← hnext]
            exact hrest hs i (by omega)

/-! ## The whole of `spawn` -/

def phoff (file : ProgFile) : Word := ByteMem.ld64 file.byte 32
def phentsize (file : ProgFile) : Nat := (ldU16 file.byte 54).toNat
def phnum (file : ProgFile) : Nat := (ldU16 file.byte 56).toNat

/-- What `spawn` needs of the file to be safe. -/
def SpawnOk (file : ProgFile) : Prop := 58 ≤ file.size ∧
  ∀ i < phnum file, EntryOk file (phentsize file) (phoff file + BitVec.ofNat 64 (i * phentsize file))

theorem openFile_grows (path : List (BitVec 8)) (s : SpawnSt) :
    Grows os p (openFile os file path) s fun _ s' => s'.fd_offset = 0 := by
  unfold openFile
  refine (Grows.must _ s).bind fun _ s₁ _ _ => ?_
  refine (Grows.must _ s₁).bind fun _ s₂ _ _ => ?_
  refine (Grows.modify rfl).bind fun _ s₃ _ hs₃ => ?_
  have hloop := Prog.Sat.forRange (i := 0) (n := (file.size + 4095) / 4096) (s := s₃)
    (E := GaveUp os p s₃) (I := fun _ s' => Grew p s₃ s' ∧ s'.fd_offset = 0)
    ⟨.refl p s₃, by rw [hs₃]⟩
    fun i _ _ s₄ ⟨hg₄, hpos₄⟩ => (?_ : (must os (.fsipc_map (i * 4096))).Sat s₄ _ _)
  · exact hloop
  · refine Prog.Sat.mono (Grows.must (p := p) _ s₄) (fun _ s₅ ⟨hg₅, hsame⟩ => ?_) fun _ _ h => ?_
    · exact ⟨hg₄.trans hg₅, hsame.fd_offset.trans hpos₄⟩
    · exact h.after hg₄

theorem initStack_grows (argv : List (List (BitVec 8))) (s : SpawnSt) :
    Grows os p (initStack os child argv) s fun r _ => 4096 < stackNeed argv → r = -E_NO_MEM := by
  unfold initStack
  split
  · exact .pure fun _ => rfl
  · rename_i hfits
    have hnot : ∀ r : U32, 4096 < stackNeed argv → r = -E_NO_MEM := fun _ h => absurd h hfits
    refine (Grows.askInt _ s).bind fun r s₁ _ _ => ?_
    split
    · exact .pure (hnot _)
    · refine (Grows.modify rfl).bind fun _ s₂ _ _ => ?_
      refine (Grows.askInt _ s₂).bind fun r s₃ _ _ => ?_
      split
      · refine (Grows.ask _ s₃).bind fun _ s₄ _ _ => ?_
        exact .pure (hnot _)
      · refine (Grows.askInt _ s₃).bind fun r s₄ _ _ => ?_
        split
        · refine (Grows.ask _ s₄).bind fun _ s₅ _ _ => ?_
          exact .pure (hnot _)
        · exact .pure (hnot _)

theorem shareDir_grows (i : Nat) (s : SpawnSt) :
    Grows os p (shareDir os child i) s fun _ _ => True := by
  unfold shareDir
  refine (Grows.ask _ s).bind fun pde s₁ _ _ => ?_
  split
  · exact .pure trivial
  · refine (Grows.forRange (W := fun _ _ => True) (fun _ _ _ _ _ => trivial) (fun j _ s => ?_)
      s₁).mono (fun h => h) fun _ _ _ _ => trivial
    unfold shareTable
    refine (Grows.ask _ s).bind fun pme s₂ _ _ => ?_
    split
    · exact .pure trivial
    · refine (Grows.forRange (W := fun _ _ => True) (fun _ _ _ _ _ => trivial) (fun k _ s => ?_)
        s₂).mono (fun h => h) fun _ _ _ _ => trivial
      unfold sharePage
      refine (Grows.ask _ s).bind fun pte s₃ _ _ => ?_
      split
      · exact .pure trivial
      · exact (Grows.must _ s₃).mono (fun h => h) fun _ _ _ _ => trivial

/-- The result is what `syscall_env_alloc` answered, also for arguments that
    `init_stack` rejects. -/
theorem spawn_grows (os : Os) (file : ProgFile) (prog : List (BitVec 8))
    (argv : List (List (BitVec 8))) (s : SpawnSt) :
    Grows os (SpawnOk file) (spawn os file prog argv) s fun r s' =>
      (∃ log, r = (os log .env_alloc).setWidth 32) ∧ (AllSafe s' → SpawnOk file) ∧
      (4096 < stackNeed argv → .stack (-E_NO_MEM) ∈ s'.log) := by
  unfold spawn
  refine (openFile_grows _ s).bind fun _ s₁ _ hpos => ?_
  have hsize := file.size_le
  have hread := readn_grows os file .elfbuf (n := EHDR_SIZE)
    (by rw [EHDR_SIZE]; omega) s₁
  rw [hpos] at hread
  have hcount : available file 0 EHDR_SIZE = min 64 file.size := rfl
  refine (hread.mono (fun _ => ?_) fun _ _ _ h => h).bind fun got s₂ _ hdone => ?_
  · rw [hcount]
    show _ + 1 ≤ 512
    omega
  obtain ⟨rfl, hbytes, -⟩ := hdone
  rw [hcount] at *
  refine Grows.get ?_
  refine (Grows.emit (e := .used (min 64 file.size) 54 2) (fun h => ?_) s₂).bind
    fun _ s₃ hg₃ hused₃ => ?_
  · have := h.1
    show 54 + 2 ≤ _
    omega
  refine (Grows.emit (e := .used (min 64 file.size) 32 8) (fun h => ?_) s₃).bind
    fun _ s₄ hg₄ _ => ?_
  · have := h.1
    show 32 + 8 ≤ _
    omega
  refine (Grows.emit (e := .used (min 64 file.size) 56 2) (fun h => ?_) s₄).bind
    fun _ s₅ hg₅ hused₅ => ?_
  · have := h.1
    show 56 + 2 ≤ _
    omega
  -- The three fields are those of the file once their bytes have been read.
  have hfields : 58 ≤ file.size → ldU16 (s₂.bufs .elfbuf) 54 = ldU16 file.byte 54 ∧
      ldU16 (s₂.bufs .elfbuf) 56 = ldU16 file.byte 56 ∧
      (s₂.bufs .elfbuf).ld64 32 = phoff file := by
    intro h58
    have hb : ∀ k < 58, s₂.bufs .elfbuf k = file.byte k := by
      intro k hk
      have h := hbytes k (by omega)
      rw [show ((0 : Word).setWidth 32).toNat + k = k from Nat.zero_add k] at h
      exact h
    refine ⟨?_, ?_, ByteMem.Same.ld64 (m := file.byte) fun x _ hx => hb x (by omega)⟩
    · rw [ldU16, hb 54 (by omega), hb (54 + 1) (by omega), ldU16]
    · rw [ldU16, hb 56 (by omega), hb (56 + 1) (by omega), ldU16]
  refine (Grows.askInt .env_alloc s₅).bind fun child s₆ hg₆ hchild => ?_
  refine (initStack_grows argv s₆).bind fun r s₆' hg₆' hstack => ?_
  refine (Grows.emit (e := .stack r) (fun _ => trivial) s₆').bind fun _ s₇ hg₇ hstacked => ?_
  have hload := loadEntries_grows os file child
    (ldU16 (s₂.bufs .elfbuf) 54).isLt (ldU16 (s₂.bufs .elfbuf) 56).toNat
    ((s₂.bufs .elfbuf).ld64 32) s₇
  refine (hload.mono (fun h => ?_) fun _ _ _ h => h).bind fun _ s₈ hg₈ hentries => ?_
  · obtain ⟨h54, h56, h32⟩ := hfields h.1
    rw [h54, h56, h32]
    exact h.2
  refine Grows.get ?_
  refine (Grows.emit (e := .setTf _ _ _) (fun _ => trivial) s₈).bind fun _ s₉ hg₉ _ => ?_
  refine (Grows.forRange (W := fun _ _ => True) (fun _ _ _ _ _ => trivial)
    (fun i _ s => shareDir_grows i s) s₉).bind fun _ s₁₀ hg₁₀ _ => ?_
  refine (Grows.must _ s₁₀).bind fun _ s₁₁ hg₁₁ _ => ?_
  refine .pure ⟨⟨_, hchild.1⟩, fun hs => ?_, fun hlong => ?_⟩
  case refine_2 =>
    rw [← hstack hlong]
    exact hg₁₁.mem (hg₁₀.mem (hg₉.mem (hg₈.mem hstacked.2)))
  have hs₈ := hg₉.allSafe (hg₁₀.allSafe (hg₁₁.allSafe hs))
  have hs₅ := hg₆.allSafe (hg₆'.allSafe (hg₇.allSafe (hg₈.allSafe hs₈)))
  have h58 : 56 + 2 ≤ min 64 file.size := hs₅ _ hused₅.2
  obtain ⟨h54, h56, h32⟩ := hfields (by omega)
  rw [h54, h56, h32] at hentries
  exact ⟨by omega, hentries hs₈⟩

/-! ## Which pages lie in the file -/

/-- The turns of the loop are a page apart. -/
theorem mem_chunkStarts_iff {limit : Word} {i j : U32} : j ∈ chunkStarts limit i ↔
    i.toNat ≤ j.toNat ∧ (j.toNat - i.toNat) % 4096 = 0 ∧ (intWord j).toNat < limit.toNat := by
  have hlimit := limit.isLt
  fun_induction chunkStarts limit i with
  | case1 i hlt ih =>
      obtain ⟨-, hsum⟩ := chunk_sum hlt
      rw [BitVec.lt_def] at hlt
      have hi := i.isLt
      have hj := j.isLt
      have hw := toNat_intWord i
      have hwj := toNat_intWord j
      refine (List.mem_cons.trans (or_congr_right ih)).trans ?_
      rw [BitVec.toNat_setWidth, hsum]
      by_cases hji : j = i
      · subst hji
        simp only [true_or, true_iff]
        omega
      · have hne : j.toNat ≠ i.toNat := fun h => hji (BitVec.eq_of_toNat_eq h)
        simp only [hji, false_or]
        split at hw
        · split at hwj <;> omega
        · split at hwj <;> omega
  | case2 i hge =>
      rw [BitVec.lt_def] at hge
      have hi := i.isLt
      have hj := j.isLt
      have hw := toNat_intWord i
      have hwj := toNat_intWord j
      refine iff_of_false List.not_mem_nil fun h => ?_
      obtain ⟨hle, -, hlt⟩ := h
      split at hw
      · split at hwj <;> omega
      · split at hwj <;> omega

/-- The page at `vaddr + i` gets its 4096 bytes from the file. -/
def FullPage (file : ProgFile) (ph : Phdr) (i : U32) : Prop :=
  (ph.vaddr.toNat + i.toNat) % 4096 = 0 ∧ (intWord i).toNat + 4096 ≤ ph.filesz.toNat ∧
  ((ph.offset + intWord i).setWidth 32).toNat + 4096 ≤ file.size

theorem toNat_firstBytes (ph : Phdr) : (firstBytes ph).toNat =
    if ph.vaddr.toNat % 4096 = 0 then 0
    else min ph.filesz.toNat (4096 - ph.vaddr.toNat % 4096) := by
  have hoff := toNat_pageOffset ph.vaddr
  unfold firstBytes
  split
  · rename_i hzero
    have hmod : ph.vaddr.toNat % 4096 = 0 := by
      rw [← hoff, hzero]
      rfl
    rw [if_pos hmod]
    rfl
  · rename_i hne
    have hpos : (pageOffset ph.vaddr).toNat ≠ 0 := fun h => hne (BitVec.eq_of_toNat_eq h)
    have hrest : (4096 - pageOffset ph.vaddr).toNat = 4096 - (pageOffset ph.vaddr).toNat := by
      rw [BitVec.toNat_sub_of_le (by rw [BitVec.le_def]; show _ ≤ 4096; omega)]
      rfl
    rw [if_neg (by omega), BitVec.toNat_setWidth, toNat_minWord, hrest, hoff]
    omega

theorem noFullPage_iff {ph : Phdr} : NoFullPage file ph ↔ ∀ i, ¬ FullPage file ph i := by
  have hfirst := toNat_firstBytes ph
  have hpage : ∀ i : U32, i ∈ chunkStarts ph.filesz (firstBytes ph) →
      pageBytes file ph i (minWord 4096 (ph.filesz - intWord i)) =
        min (min 4096 (ph.filesz.toNat - (intWord i).toNat))
          (file.size - ((ph.offset + intWord i).setWidth 32).toNat) := by
    intro i hi
    rw [pageBytes, available, (chunk_sum (mem_chunkStarts hi)).1]
  constructor
  · rintro hno i ⟨haligned, hsegment, hfile⟩
    have hlow := toNat_intWord i
    have hmem : i ∈ chunkStarts ph.filesz (firstBytes ph) := by
      rw [mem_chunkStarts_iff]
      split at hfirst
      · split at hlow <;> omega
      · split at hlow <;> omega
    have hlt := hno i hmem
    rw [hpage i hmem] at hlt
    omega
  · intro hno i hi
    have hlt := hno i
    rw [hpage i hi]
    rw [mem_chunkStarts_iff] at hi
    unfold FullPage at hlt
    have hlow := toNat_intWord i
    split at hfirst
    · split at hlow <;> omega
    · split at hlow <;> omega

/-! ## The condition -/

/-- The file has an ELF header and all of the program header table. -/
def Complete (file : ProgFile) : Prop :=
  64 ≤ file.size ∧
  (file.byte 0 = 0x7f ∧ file.byte 1 = 0x45 ∧ file.byte 2 = 0x4c ∧ file.byte 3 = 0x46) ∧
  (phnum file = 0 ∨ (phoff file).toNat + phnum file * phentsize file ≤ file.size)

/-- The header is complete, a table entry holds the fields that are used of it and
    leaves room for a null in `elfbuf`, and no segment to be loaded has a page that
    lies wholly in the file. -/
def WellFormed (file : ProgFile) : Prop :=
  Complete file ∧ (0 < phnum file → 4 ≤ phentsize file ∧ phentsize file < 512) ∧
  ∀ i < phnum file, (entryAt file ((phoff file).toNat + i * phentsize file)).type = PT_LOAD →
    48 ≤ phentsize file ∧
    ∀ j, ¬ FullPage file (entryAt file ((phoff file).toNat + i * phentsize file)) j

/-- An entry of a table that lies in the file is read whole. -/
theorem entryOk_iff (hcomplete : Complete file) {i : Nat} (hi : i < phnum file) :
    EntryOk file (phentsize file) (phoff file + BitVec.ofNat 64 (i * phentsize file)) ↔
      phentsize file < 512 ∧ 4 ≤ phentsize file ∧
      ((entryAt file ((phoff file).toNat + i * phentsize file)).type = PT_LOAD →
        48 ≤ phentsize file ∧
        ∀ j, ¬ FullPage file (entryAt file ((phoff file).toNat + i * phentsize file)) j) := by
  obtain ⟨-, -, htable⟩ := hcomplete
  have hsize := file.size_le
  have htable' : (phoff file).toNat + phnum file * phentsize file ≤ file.size := by
    rcases htable with h | h
    · omega
    · exact h
  have hnext : (i + 1) * phentsize file ≤ phnum file * phentsize file := Nat.mul_le_mul_right _ hi
  rw [Nat.add_mul, Nat.one_mul] at hnext
  have hpos : ((phoff file + BitVec.ofNat 64 (i * phentsize file)).setWidth 32).toNat =
      (phoff file).toNat + i * phentsize file := by
    rw [BitVec.toNat_setWidth, BitVec.toNat_add, BitVec.toNat_ofNat]
    omega
  have hgot : available file (phoff file + BitVec.ofNat 64 (i * phentsize file))
      (phentsize file) = phentsize file := by
    rw [available, hpos]
    omega
  rw [EntryOk, hgot, hpos, noFullPage_iff]

theorem wellFormed_iff : WellFormed file ↔ Complete file ∧ SpawnOk file := by
  constructor
  · rintro ⟨hcomplete, hsizes, hload⟩
    refine ⟨hcomplete, by have := hcomplete.1; omega, fun i hi => ?_⟩
    obtain ⟨h4, h512⟩ := hsizes (by omega)
    rw [entryOk_iff hcomplete hi]
    exact ⟨h512, h4, hload i hi⟩
  · rintro ⟨hcomplete, -, hentries⟩
    have hentry := fun i hi => (entryOk_iff hcomplete hi).mp (hentries i hi)
    refine ⟨hcomplete, fun hpos => ?_, fun i hi => (hentry i hi).2.2⟩
    obtain ⟨h512, h4, -⟩ := hentry 0 hpos
    exact ⟨h4, h512⟩

/-- `spawn` returns `r`, from any step. -/
def SpawnReturns (os : Os) (file : ProgFile) (prog : List (BitVec 8))
    (argv : List (List (BitVec 8))) (s : SpawnSt) (r : U32) (s' : SpawnSt) : Prop :=
  spawn os file prog argv s = .ret r s' ∨ spawn os file prog argv s = .fail r s'

/-- `spawn` returns, whatever the calls answer; its reads are safe, and for a file
    that is not complete it returns an error. -/
def Robust (file : ProgFile) : Prop := ∀ os prog argv s, s.log = [] →
  ∃ r s', SpawnReturns os file prog argv s r s' ∧ AllSafe s' ∧ (¬ Complete file → r.msb = true)

/-- No call fails; there is nothing to share. -/
def calmOs : Os := fun _ q =>
  match q with
  | .env_alloc => 4097
  | _ => 0

theorem calmOs_calm : Calm calmOs := by
  intro log q
  unfold calmOs
  split <;> decide

/-- `spawn` succeeds with any file. -/
theorem spawn_calm (file : ProgFile) (prog : List (BitVec 8)) (argv : List (List (BitVec 8)))
    (s : SpawnSt) : ∃ s', spawn calmOs file prog argv s = .ret 4097 s' ∧
      (AllSafe s' → SpawnOk file) ∧ (4096 < stackNeed argv → .stack (-E_NO_MEM) ∈ s'.log) := by
  have hsat := spawn_grows calmOs file prog argv s
  unfold Grows Prog.Sat at hsat
  split at hsat
  · rename_i r s' hrun
    obtain ⟨-, ⟨log, hr⟩, hsafe⟩ := hsat
    exact ⟨s', hrun.trans (congrArg (Outcome.ret · s') hr), hsafe⟩
  · exact absurd calmOs_calm hsat.2.1
  · exact hsat.elim

theorem spawnSt_nonempty : ∃ s : SpawnSt, s.log = [] :=
  ⟨{ fd_offset := 0, bufs := fun _ _ => 0, mem := fun _ => 0, esp := 0, log := [] }, rfl⟩

theorem Robust.complete_and_ok (h : Robust file) : Complete file ∧ SpawnOk file := by
  obtain ⟨s, hs⟩ := spawnSt_nonempty
  obtain ⟨s₁, hrun, hok, -⟩ := spawn_calm file [] [] s
  obtain ⟨r, s', hreturns, hsafe, herror⟩ := h calmOs [] [] s hs
  unfold SpawnReturns at hreturns
  rw [hrun] at hreturns
  obtain ⟨rfl, rfl⟩ : r = 4097 ∧ s' = s₁ := by
    rcases hreturns with h | h
    · cases h
      exact ⟨rfl, rfl⟩
    · cases h
  refine ⟨?_, hok hsafe⟩
  by_contra hincomplete
  exact absurd (herror hincomplete) (by decide)

/-- A file is handled safely, and refused where it is not complete, exactly when it
    is well formed. -/
theorem spawn_robust_iff (file : ProgFile) : Robust file ↔ WellFormed file := by
  rw [wellFormed_iff]
  constructor
  · exact Robust.complete_and_ok
  · rintro ⟨hcomplete, hok⟩ os prog argv s hs
    have hsafe : ∀ {r s'}, Grew (SpawnOk file) s s' →
        AllSafe s' ∧ (¬ Complete file → r = true) := by
      intro r s' hg
      obtain ⟨new, hlog, hnew⟩ := hg
      rw [hs, List.nil_append] at hlog
      refine ⟨fun e he => ?_, fun h => absurd hcomplete h⟩
      rw [hlog] at he
      exact hnew hok e he
    have hsat := spawn_grows os file prog argv s
    unfold Grows Prog.Sat at hsat
    split at hsat
    · rename_i r s' hrun
      exact ⟨r, s', .inl hrun, hsafe hsat.1⟩
    · rename_i r s' hrun
      exact ⟨r, s', .inr hrun, hsafe hsat.2.2⟩
    · exact hsat.elim

def emptyFile : ProgFile where
  size := 0
  byte := fun _ => 0
  size_le := by decide

/-- An empty file is made an environment of. -/
theorem emptyFile_not_robust : ¬ Robust emptyFile := by
  intro h
  obtain ⟨⟨hsize, -⟩, -⟩ := h.complete_and_ok
  exact absurd hsize (by decide)

end RpiMos
