/-
  RpiMos.User.UserBcopy

  `user_bcopy` of user/fork.c.  When both addresses are multiples of four it copies
  words as long as there are four bytes left, and in any case bytes up to the end;
  the loops compare addresses, which are 64-bit words.
-/

import RpiMos.User.FileRange

namespace RpiMos

open Lib

/-- What a copy leaves is determined by what it is asked for. -/
theorem BytesCopied.unique {m m₁ m₂ : ByteMem} {src dst n : Nat} (h₁ : BytesCopied src dst n m m₁)
    (h₂ : BytesCopied src dst n m m₂) : m₁ = m₂ := by
  funext x
  by_cases hx : dst ≤ x ∧ x < dst + n
  · have hoff : x = dst + (x - dst) := by omega
    rw [hoff, h₁.here _ (by omega), h₂.here _ (by omega)]
  · rw [h₁.other x (by omega), h₂.other x (by omega)]

namespace Fork

/-- `while (dst + 3 < max)`; `none` when the turns do not bring it to its end. -/
def copyWords (max : Word) : Nat → Word → Word → ByteMem → Option (Word × Word × ByteMem)
  | 0, _, _, _ => none
  | turns + 1, src, dst, m =>
      if dst + 3 < max then copyWords max turns (src + 4) (dst + 4) (m.st32 dst.toNat (m.ld32 src.toNat))
      else some (src, dst, m)

/-- `while (dst < max)`. -/
def copyBytes (max : Word) : Nat → Word → Word → ByteMem → Option ByteMem
  | 0, _, _, _ => none
  | turns + 1, src, dst, m =>
      if dst < max then copyBytes max turns (src + 1) (dst + 1) (m.st8 dst.toNat (m.ld8 src.toNat))
      else some m

/-- `user_bcopy(src, dst, len)`. -/
def userBcopy (turns : Nat) (src dst len : Word) (m : ByteMem) : Option ByteMem :=
  let max := dst + len
  if src % 4 = 0 ∧ dst % 4 = 0 then
    (copyWords max turns src dst m).bind fun (src, dst, m) => copyBytes max turns src dst m
  else copyBytes max turns src dst m

variable {m : ByteMem} {src dst max : Word} {n turns : Nat}

theorem toNat_add_lt {a : Word} (k : Nat) (h : a.toNat + k < 2 ^ 64) :
    (a + BitVec.ofNat 64 k).toNat = a.toNat + k := by
  rw [BitVec.toNat_add, BitVec.toNat_ofNat]
  omega

/-- The bytes up to `max`; induction on how many there are. -/
theorem copyBytes_spec (hmax : dst.toNat + n = max.toNat) (hsrc : src.toNat + n < 2 ^ 64)
    (hap : RangesApart src.toNat dst.toNat n) (hturns : n < turns) :
    ∃ m', copyBytes max turns src dst m = some m' ∧ BytesCopied src.toNat dst.toNat n m m' := by
  have hlt := max.isLt
  induction n generalizing src dst m turns with
  | zero =>
      obtain ⟨turns, rfl⟩ := Nat.exists_eq_succ_of_ne_zero (Nat.ne_of_gt hturns)
      have hend : ¬ dst < max := by
        rw [BitVec.lt_def]
        omega
      exact ⟨m, by rw [copyBytes, if_neg hend], fun i hi => absurd hi (Nat.not_lt_zero i), fun _ _ => rfl⟩
  | succ n ih =>
      obtain ⟨turns, rfl⟩ := Nat.exists_eq_succ_of_ne_zero (Nat.ne_zero_of_lt hturns)
      have hmore : dst < max := by
        rw [BitVec.lt_def]
        omega
      have hsrc₁ : (src + 1).toNat = src.toNat + 1 := toNat_add_lt 1 (by omega)
      have hdst₁ : (dst + 1).toNat = dst.toNat + 1 := toNat_add_lt 1 (by omega)
      have hap₁ : RangesApart (src + 1).toNat (dst + 1).toNat n := by
        rw [hsrc₁, hdst₁]
        unfold RangesApart at hap ⊢
        omega
      obtain ⟨m', hrun, hcopied⟩ :
          ∃ m', copyBytes max turns (src + 1) (dst + 1) (m.st8 dst.toNat (m.ld8 src.toNat)) = some m' ∧
          BytesCopied (src + 1).toNat (dst + 1).toNat n (m.st8 dst.toNat (m.ld8 src.toNat)) m' :=
        ih (by omega) (by omega) hap₁ (by omega)
      rw [hsrc₁, hdst₁] at hcopied
      refine ⟨m', by rw [copyBytes, if_pos hmore]; exact hrun, ?_⟩
      exact (copied_byte m _ _).append hcopied (Nat.add_comm 1 n) hap

/-- The words that fit before `max`: the loop ends with less than four bytes left.  As
    `dst` is a multiple of four, `dst + 3` does not wrap. -/
theorem copyWords_spec (hmax : dst.toNat + n = max.toNat) (hsrc : src.toNat + n < 2 ^ 64) (hdst : dst.toNat % 4 = 0)
    (hap : RangesApart src.toNat dst.toNat n) (hturns : n < turns) :
    ∃ src' dst' m' k, copyWords max turns src dst m = some (src', dst', m') ∧ k ≤ n ∧
      src'.toNat = src.toNat + k ∧ dst'.toNat = dst.toNat + k ∧ BytesCopied src.toNat dst.toNat k m m' := by
  have hlt := max.isLt
  have hlt' := dst.isLt
  induction turns generalizing src dst m n with
  | zero => exact absurd hturns (Nat.not_lt_zero n)
  | succ turns ih =>
      have hend : (dst + 3).toNat = dst.toNat + 3 := toNat_add_lt 3 (by omega)
      by_cases hmore : dst + 3 < max
      · rw [BitVec.lt_def, hend] at hmore
        have hsrc₁ : (src + 4).toNat = src.toNat + 4 := toNat_add_lt 4 (by omega)
        have hdst₁ : (dst + 4).toNat = dst.toNat + 4 := toNat_add_lt 4 (by omega)
        have hap₁ : RangesApart (src + 4).toNat (dst + 4).toNat (n - 4) := by
          rw [hsrc₁, hdst₁]
          unfold RangesApart at hap ⊢
          omega
        obtain ⟨src', dst', m', k, hrun, hk, hsrc', hdst', hcopied⟩ : ∃ src' dst' m' k,
            copyWords max turns (src + 4) (dst + 4) (m.st32 dst.toNat (m.ld32 src.toNat)) =
                some (src', dst', m') ∧ k ≤ n - 4 ∧
            src'.toNat = (src + 4).toNat + k ∧ dst'.toNat = (dst + 4).toNat + k ∧
            BytesCopied (src + 4).toNat (dst + 4).toNat k (m.st32 dst.toNat (m.ld32 src.toNat)) m' :=
          ih (by omega) (by omega) (by omega) hap₁ (by omega) (dst + 4).isLt
        rw [hsrc₁, hdst₁] at hcopied
        have hap₂ : RangesApart src.toNat dst.toNat (4 + k) := by
          unfold RangesApart at hap ⊢
          omega
        refine ⟨src', dst', m', 4 + k, ?_, by omega, by omega, by omega, ?_⟩
        · rw [copyWords, if_pos (by rw [BitVec.lt_def, hend]; exact hmore), hrun]
        · exact (copied_word m _ _).append hcopied rfl hap₂
      · refine ⟨src, dst, m, 0, ?_, Nat.zero_le n, rfl, rfl,
          fun i hi => absurd hi (Nat.not_lt_zero i), fun _ _ => rfl⟩
        rw [copyWords, if_neg hmore]

theorem toNat_mod_four {a : Word} (h : a % 4 = 0) : a.toNat % 4 = 0 := by
  have hmod := congrArg BitVec.toNat h
  rw [BitVec.toNat_umod] at hmod
  exact hmod

/-- Words and the bytes left behind them, or bytes alone. -/
theorem userBcopy_spec {len : Word} (hsrc : src.toNat + len.toNat < 2 ^ 64) (hdst : dst.toNat + len.toNat < 2 ^ 64)
    (hap : RangesApart src.toNat dst.toNat len.toNat) (hturns : len.toNat < turns) :
    ∃ m', userBcopy turns src dst len m = some m' ∧ BytesCopied src.toNat dst.toNat len.toNat m m' := by
  have hmax : dst.toNat + len.toNat = (dst + len).toNat := by
    rw [BitVec.toNat_add]
    omega
  rw [userBcopy]
  by_cases halign : src % 4 = 0 ∧ dst % 4 = 0
  · rw [if_pos halign]
    obtain ⟨src₁, dst₁, m₁, k, hwords, hk, hsrc₁, hdst₁, hcopied₁⟩ :=
      copyWords_spec hmax hsrc (toNat_mod_four halign.2) hap hturns (m := m)
    have hap₁ : RangesApart src₁.toNat dst₁.toNat (len.toNat - k) := by
      unfold RangesApart at hap ⊢
      omega
    obtain ⟨m₂, htail, hcopied₂⟩ : ∃ m₂, copyBytes (dst + len) turns src₁ dst₁ m₁ = some m₂ ∧
        BytesCopied src₁.toNat dst₁.toNat (len.toNat - k) m₁ m₂ :=
      copyBytes_spec (by omega) (by omega) hap₁ (by omega)
    rw [hsrc₁, hdst₁] at hcopied₂
    rw [hwords]
    exact ⟨m₂, htail, hcopied₁.append hcopied₂ (Nat.add_sub_cancel' hk) hap⟩
  · rw [if_neg halign]
    exact copyBytes_spec hmax hsrc hap hturns

/-- For ranges that are apart and do not wrap, `user_bcopy` copies `len` bytes and
    changes no other, whatever the alignment; bytes alone come to the same. -/
theorem userBcopy_copies (m : ByteMem) (src dst len : Word) (hsrc : src.toNat + len.toNat < 2 ^ 64)
    (hdst : dst.toNat + len.toNat < 2 ^ 64) (hap : RangesApart src.toNat dst.toNat len.toNat) :
    ∃ m', BytesCopied src.toNat dst.toNat len.toNat m m' ∧ ∀ turns, len.toNat < turns →
      userBcopy turns src dst len m = some m' ∧ copyBytes (dst + len) turns src dst m = some m' := by
  have hmax : dst.toNat + len.toNat = (dst + len).toNat := by
    rw [BitVec.toNat_add]
    omega
  obtain ⟨m', -, hcopied⟩ := copyBytes_spec hmax hsrc hap (Nat.lt_succ_self _) (m := m)
  refine ⟨m', hcopied, fun turns hturns => ⟨?_, ?_⟩⟩
  · obtain ⟨m₁, hrun, hcopied₁⟩ := userBcopy_spec hsrc hdst hap hturns (m := m)
    rw [hrun, hcopied₁.unique hcopied]
  · obtain ⟨m₁, hrun, hcopied₁⟩ := copyBytes_spec hmax hsrc hap hturns (m := m)
    rw [hrun, hcopied₁.unique hcopied]

/-- Seven bytes between aligned addresses: a word, and three bytes behind it. -/
theorem seven_copied : ∃ m', BytesCopied 0x1000 0x2000 7 (fun a => BitVec.ofNat 8 a) m' ∧ ∀ turns, 7 < turns →
    userBcopy turns 0x1000 0x2000 7 (fun a => BitVec.ofNat 8 a) = some m' ∧
    copyBytes (0x2000 + 7) turns 0x1000 0x2000 (fun a => BitVec.ofNat 8 a) = some m' :=
  userBcopy_copies _ 0x1000 0x2000 7 (by decide) (by decide) (Or.inl (by decide))

/-- The copies of user/file.c are made by these loops. -/
theorem userBcopy_eq {len : Word} (hsrc : src.toNat + len.toNat < 2 ^ 64) (hdst : dst.toNat + len.toNat < 2 ^ 64)
    (hap : RangesApart src.toNat dst.toNat len.toNat) (hturns : len.toNat < turns) :
    userBcopy turns src dst len m = some (RpiMos.userBcopy m src.toNat dst.toNat len.toNat) := by
  obtain ⟨m', hrun, hcopied⟩ := userBcopy_spec hsrc hdst hap hturns (m := m)
  have hother : BytesCopied src.toNat dst.toNat len.toNat m (RpiMos.userBcopy m src.toNat dst.toNat len.toNat) := by
    unfold RpiMos.userBcopy
    split
    · exact bcopy_spec hap
    · exact bcopyBytes_spec hap
  rw [hrun, hcopied.unique hother]

end Fork

end RpiMos
