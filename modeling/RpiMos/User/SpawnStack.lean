/-
  RpiMos.User.SpawnStack

  The page with the arguments that `init_stack` builds and maps below the top of
  the child's stack: what the child finds there, and for which arguments it all
  fits.
-/

import RpiMos.User.SpawnFile

namespace RpiMos

open Lib Lib.ByteMem

variable {os : Os} {child : U32} {s s' : SpawnSt} {m : ByteMem} {a : Word}
  {argv : List (List (BitVec 8))} {str : List (BitVec 8)}

/-! ## Sizes -/

/-- The strings with their nulls. -/
def stringBytes (argv : List (List (BitVec 8))) : Nat := (argv.map fun str => str.length + 1).sum

/-- What the page has to hold: the strings, the pointers and the null after them, the
    two words. -/
def stackSize (argv : List (List (BitVec 8))) : Nat := stringBytes argv + 8 * (argv.length + 3)

/-- Where string `k` starts, after the first. -/
def stringOffset (argv : List (List (BitVec 8))) (k : Nat) : Nat := stringBytes (argv.take k)

theorem stringBytes_cons (str : List (BitVec 8)) (argv : List (List (BitVec 8))) :
    stringBytes (str :: argv) = str.length + 1 + stringBytes argv := by
  rw [stringBytes, List.map_cons, List.sum_cons, stringBytes]

theorem length_le_stringBytes (argv : List (List (BitVec 8))) :
    argv.length ≤ stringBytes argv := by
  induction argv with
  | nil => exact Nat.le_refl 0
  | cons str argv ih =>
      rw [stringBytes_cons, List.length_cons]
      omega

theorem stringOffset_succ (str : List (BitVec 8)) (argv : List (List (BitVec 8))) (k : Nat) :
    stringOffset (str :: argv) (k + 1) = str.length + 1 + stringOffset argv k := by
  rw [stringOffset, List.take_succ_cons, stringBytes_cons, stringOffset]

/-- String `k` ends before what comes after it, and before the end. -/
theorem stringOffset_end {k : Nat} (hk : k < argv.length) :
    stringOffset argv k + argv[k].length + 1 ≤ stringBytes argv ∧
    ∀ j, k < j → stringOffset argv k + argv[k].length + 1 ≤ stringOffset argv j := by
  induction argv generalizing k with
  | nil => exact absurd hk (Nat.not_lt_zero k)
  | cons str argv ih =>
      have hzero : stringOffset (str :: argv) 0 = 0 := rfl
      rw [stringBytes_cons]
      cases k with
      | zero =>
          rw [hzero]
          refine ⟨by simp only [List.getElem_cons_zero]; omega, fun j hj => ?_⟩
          obtain ⟨j, rfl⟩ : ∃ i, j = i + 1 := ⟨j - 1, by omega⟩
          rw [stringOffset_succ]
          simp only [List.getElem_cons_zero]
          omega
      | succ k =>
          rw [List.length_cons] at hk
          obtain ⟨hend, hnext⟩ := ih (k := k) (by omega)
          rw [stringOffset_succ]
          simp only [List.getElem_cons_succ]
          refine ⟨by omega, fun j hj => ?_⟩
          obtain ⟨j, rfl⟩ : ∃ i, j = i + 1 := ⟨j - 1, by omega⟩
          have := hnext j (by omega)
          rw [stringOffset_succ]
          omega

theorem stringsTotal_eq (argv : List (List (BitVec 8))) :
    stringsTotal argv = BitVec.ofNat 32 (stringBytes argv) := by
  have hfold : ∀ t : U32,
      argv.foldl (fun tot str => tot + (BitVec.ofNat 32 str.length + 1)) t =
        t + BitVec.ofNat 32 (stringBytes argv) := by
    induction argv with
    | nil => exact fun t => (BitVec.add_zero t).symm
    | cons str argv ih =>
        intro t
        have hone : BitVec.ofNat 32 str.length + 1 = BitVec.ofNat 32 (str.length + 1) := by
          rw [BitVec.ofNat_add]
          rfl
        rw [List.foldl_cons, ih, stringBytes_cons, BitVec.ofNat_add, hone, BitVec.add_assoc]
  rw [stringsTotal, hfold]
  exact BitVec.zero_add _

theorem toNat_round8 (w : Word) : (roundWord w 8).toNat = (w.toNat + 7) % 2 ^ 64 / 8 * 8 :=
  toNat_roundWord (k := 3) (by decide) w

theorem toNat_round4 (w : Word) : (roundWord w 4).toNat = (w.toNat + 3) % 2 ^ 64 / 4 * 4 :=
  toNat_roundWord (k := 2) (by decide) w

theorem eight_mul_count (argv : List (List (BitVec 8))) (c : Nat) :
    8 * (argCount argv + BitVec.ofNat 32 c) = BitVec.ofNat 32 (8 * (argv.length + c)) := by
  rw [argCount, ← BitVec.ofNat_add, BitVec.ofNat_mul]
  rfl

/-- The sum that the check is for. -/
def roundedSize (argv : List (List (BitVec 8))) : Nat :=
  (stringBytes argv + 7) / 8 * 8 + 8 * (argv.length + 3)

theorem roundedSize_le_iff : roundedSize argv ≤ 4096 ↔ stackSize argv ≤ 4096 := by
  unfold roundedSize stackSize
  omega

/-- The size does not fit, and what is left of it in the check's `int`s does. -/
def SizeWraps (argv : List (List (BitVec 8))) : Prop :=
  4096 < roundedSize argv ∧ roundedSize argv % 2 ^ 32 ≤ 4096 ∧
  (stringBytes argv % 2 ^ 32 < 2 ^ 31 ∨ 8 * (argv.length + 3) % 2 ^ 32 < 2 ^ 31)

/-- The check: two `int`s as `u64`s, the first rounded. -/
theorem check_passes_iff : ¬ 4096 < stackNeed argv ↔
    stackSize argv ≤ 4096 ∨ SizeWraps argv := by
  have htotal := toNat_intWord (BitVec.ofNat 32 (stringBytes argv))
  have hround := toNat_round8 (intWord (stringsTotal argv))
  have hwords := toNat_intWord (BitVec.ofNat 32 (8 * (argv.length + 3)))
  rw [BitVec.toNat_ofNat] at htotal hwords
  rw [← roundedSize_le_iff, SizeWraps, stackNeed, BitVec.lt_def, BitVec.toNat_add, hround,
    stringsTotal_eq, show (3 : U32) = BitVec.ofNat 32 3 from rfl, eight_mul_count, roundedSize]
  show ¬ 4096 < _ ↔ _
  split at htotal
  · split at hwords <;> omega
  · split at hwords <;> omega

/-! ## The loops -/

theorem toNat_add_ofNat {n : Nat} (h : a.toNat + n < 2 ^ 64) :
    (a + BitVec.ofNat 64 n).toNat = a.toNat + n := by
  rw [BitVec.toNat_add, BitVec.toNat_ofNat]
  omega

theorem putString_spec (str : List (BitVec 8)) (h : a.toNat + str.length + 1 < 2 ^ 64) :
    Holds (putString m a str) a.toNat (str ++ [0]) ∧
    ∀ x, x < a.toNat ∨ a.toNat + (str.length + 1) ≤ x → putString m a str x = m x := by
  induction str generalizing m a with
  | nil =>
      refine ⟨Holds.cons ?_ fun i hi => absurd hi (Nat.not_lt_zero i), fun x hx => ?_⟩
      · exact ld8_st8 0
      · rw [List.length_nil] at hx
        rw [putString, st8, if_neg (by omega)]
  | cons c str ih =>
      rw [List.length_cons] at h
      have hnext : (a + 1).toNat = a.toNat + 1 := toNat_add_ofNat (n := 1) (by omega)
      obtain ⟨hrest, hframe⟩ := ih (m := m.st8 a.toNat c) (a := a + 1) (by omega)
      rw [hnext] at hrest hframe
      refine ⟨Holds.cons ?_ hrest, fun x hx => ?_⟩
      · rw [putString, hframe a.toNat (by omega)]
        exact ld8_st8 c
      · rw [List.length_cons] at hx
        rw [putString, hframe x (by omega), st8, if_neg (by omega)]

theorem putStrings_spec (argv : List (List (BitVec 8)))
    (h : a.toNat + stringBytes argv < 2 ^ 64) :
    (∀ k (hk : k < argv.length),
      Holds (putStrings m a argv) (a.toNat + stringOffset argv k) (argv[k] ++ [0])) ∧
    ∀ x, x < a.toNat ∨ a.toNat + stringBytes argv ≤ x → putStrings m a argv x = m x := by
  induction argv generalizing m a with
  | nil => exact ⟨fun k hk => absurd hk (Nat.not_lt_zero k), fun _ _ => rfl⟩
  | cons str argv ih =>
      rw [stringBytes_cons] at h ⊢
      obtain ⟨hstr, hframe⟩ := putString_spec (m := m) (a := a) str (by omega)
      have hnext : (a + BitVec.ofNat 64 (str.length + 1)).toNat = a.toNat + (str.length + 1) :=
        toNat_add_ofNat (by omega)
      obtain ⟨hrest, hframe'⟩ := ih (m := putString m a str)
        (a := a + BitVec.ofNat 64 (str.length + 1)) (by omega)
      rw [hnext] at hrest hframe'
      refine ⟨fun k hk => ?_, fun x hx => ?_⟩
      · cases k with
        | zero =>
            show Holds (putStrings m a (str :: argv)) a.toNat (str ++ [0])
            rw [putStrings]
            refine Holds.of_same hstr fun x hlo hhi => hframe' x ?_
            rw [List.length_append, List.length_singleton] at hhi
            omega
        | succ k =>
            have hk' := hrest k (by rw [List.length_cons] at hk; omega)
            rw [Nat.add_assoc, ← stringOffset_succ] at hk'
            exact hk'
      · rw [putStrings, hframe' x (by omega), hframe x (by omega)]

theorem putArgs_spec (ctemp : Word) (argv : List (List (BitVec 8)))
    (h : a.toNat + 8 * argv.length < 2 ^ 64) (hlen : stringBytes argv < 2 ^ 31) :
    (∀ k < argv.length, (putArgs m a ctemp argv).ld64 (a.toNat + 8 * k) =
      ctemp + BitVec.ofNat 64 (stringOffset argv k)) ∧
    ∀ x, x < a.toNat ∨ a.toNat + 8 * argv.length ≤ x → putArgs m a ctemp argv x = m x := by
  induction argv generalizing m a ctemp with
  | nil => exact ⟨fun k hk => absurd hk (Nat.not_lt_zero k), fun _ _ => rfl⟩
  | cons str argv ih =>
      rw [List.length_cons] at h ⊢
      rw [stringBytes_cons] at hlen
      have hnext : (a + 8).toNat = a.toNat + 8 := toNat_add_ofNat (n := 8) (by omega)
      have hstep : intWord (BitVec.ofNat 32 str.length + 1) = BitVec.ofNat 64 (str.length + 1) := by
        have hone : BitVec.ofNat 32 str.length + 1 = BitVec.ofNat 32 (str.length + 1) := by
          rw [BitVec.ofNat_add]
          rfl
        apply BitVec.eq_of_toNat_eq
        rw [hone, toNat_intWord_ofNat (by omega), BitVec.toNat_ofNat]
        omega
      obtain ⟨hrest, hframe⟩ := ih (m := m.st64 a.toNat ctemp) (a := a + 8)
        (ctemp + intWord (BitVec.ofNat 32 str.length + 1)) (by omega) (by omega)
      rw [hnext] at hrest hframe
      refine ⟨fun k hk => ?_, fun x hx => ?_⟩
      · cases k with
        | zero =>
            have hzero : stringOffset (str :: argv) 0 = 0 := rfl
            have hsame : Same (m.st64 a.toNat ctemp) (putArgs (m.st64 a.toNat ctemp) (a + 8)
                (ctemp + intWord (BitVec.ofNat 32 str.length + 1)) argv) a.toNat 8 :=
              fun x hlo hhi => hframe x (by omega)
            rw [putArgs, Nat.mul_zero, Nat.add_zero, hsame.ld64, ld64_st64, hzero]
            exact (BitVec.add_zero ctemp).symm
        | succ k =>
            have hk' := hrest k (by omega)
            have hat : a.toNat + 8 * (k + 1) = a.toNat + 8 + 8 * k := by omega
            rw [putArgs, hat, hk', hstep, BitVec.add_assoc, ← BitVec.ofNat_add, ← stringOffset_succ]
      · rw [putArgs, hframe x (by omega)]
        exact same_st64 (n := 1) ctemp (by omega) x (Nat.le_refl x) (Nat.lt_succ_self x)

/-! ## The page -/

/-- The child's memory, in the page below the top of its stack: the page that was
    built at `TMPPAGE`. -/
def childPage (m : ByteMem) : ByteMem := fun x => m (x - (USTACKTOP - TMPPAGE_TOP).toNat)

/-- The address of the pointers, as the child gets it. -/
def argvAt (m : ByteMem) (esp : Nat) : Nat := (m.ld64 (esp + 8)).toNat

def stringAt (m : ByteMem) (esp k : Nat) : Nat := (m.ld64 (argvAt m esp + 8 * k)).toNat

/-- The two words, the pointers with the null after them, and each of the strings. -/
def stackRegions (m : ByteMem) (esp : Nat) (argv : List (List (BitVec 8))) : List (Nat × Nat) :=
  (esp, 16) :: (argvAt m esp, 8 * (argv.length + 1)) ::
    argv.mapIdx fun k str => (stringAt m esp k, str.length + 1)

/-- What a program finds at its stack pointer. -/
structure StackLayout (m : ByteMem) (esp : Nat) (argv : List (List (BitVec 8))) : Prop where
  argc : m.ld64 esp = BitVec.ofNat 64 argv.length
  null : m.ld64 (argvAt m esp + 8 * argv.length) = 0
  strings : ∀ k (hk : k < argv.length), Holds m (stringAt m esp k) (argv[k] ++ [0])
  apart : (stackRegions m esp argv).Pairwise Separate
  inside : ∀ r ∈ stackRegions m esp argv,
    (USTACKTOP - 4096).toNat ≤ r.1 ∧ r.1 + r.2 ≤ (USTACKTOP - 4096).toNat + 4096

/-- The parts of a layout have the size that is needed. -/
theorem StackLayout.size_le {esp : Nat} (h : StackLayout m esp argv) : stackSize argv ≤ 4096 := by
  have hsum := sum_le_of_separate h.inside h.apart
  have hstrings : ((argv.mapIdx fun k str => (stringAt m esp k, str.length + 1)).map (·.2)) =
      argv.map fun str => str.length + 1 := by
    refine List.ext_getElem (by simp) fun i _ _ => ?_
    rw [List.getElem_map, List.getElem_mapIdx, List.getElem_map]
  rw [stackRegions, List.map_cons, List.map_cons, List.sum_cons, List.sum_cons, hstrings] at hsum
  rw [stackSize, stringBytes]
  simp only at hsum
  omega

theorem toNat_stackShift : (USTACKTOP - TMPPAGE_TOP).toNat = 0x3effd000 := by decide

/-- An address in the page, in the child. -/
theorem toNat_childAddr (h : a.toNat ≤ 8192) :
    (childAddr a).toNat = (USTACKTOP - TMPPAGE_TOP).toNat + a.toNat := by
  rw [childAddr, BitVec.toNat_add, toNat_stackShift]
  omega

theorem childPage_add (m : ByteMem) (x : Nat) :
    childPage m ((USTACKTOP - TMPPAGE_TOP).toNat + x) = m x := by
  rw [childPage, Nat.add_sub_cancel_left]

theorem childPage_ld64 (m : ByteMem) (x : Nat) :
    (childPage m).ld64 ((USTACKTOP - TMPPAGE_TOP).toNat + x) = m.ld64 x := by
  refine ld64_congr fun k _ => ?_
  rw [Nat.add_assoc, childPage_add]

/-- Where things are in the page at `TMPPAGE`, and what the page holds. -/
structure PageBuilt (m : ByteMem) (esp : Word) (argv : List (List (BitVec 8)))
    (args strings : Nat) : Prop where
  above : 4096 + 16 ≤ args
  below : args + 8 * (argv.length + 1) ≤ strings
  top : strings + stringBytes argv = 8192
  esp_eq : esp.toNat = (USTACKTOP - TMPPAGE_TOP).toNat + (args - 16)
  argc : m.ld64 (args - 16) = BitVec.ofNat 64 argv.length
  argv_eq : (m.ld64 (args - 8)).toNat = (USTACKTOP - TMPPAGE_TOP).toNat + args
  null : m.ld64 (args + 8 * argv.length) = 0
  pointers : ∀ k < argv.length, (m.ld64 (args + 8 * k)).toNat =
    (USTACKTOP - TMPPAGE_TOP).toNat + (strings + stringOffset argv k)
  copies : ∀ k (hk : k < argv.length), Holds m (strings + stringOffset argv k) (argv[k] ++ [0])

/-- The page in the child's address space. -/
theorem PageBuilt.layout {esp : Word} {args strings : Nat} (h : PageBuilt m esp argv args strings) :
    StackLayout (childPage m) esp.toNat argv := by
  obtain ⟨habove, hbelow, htop, hesp, hargc, hargv, hnull, hpointers, hcopies⟩ := h
  have hat : argvAt (childPage m) esp.toNat = (USTACKTOP - TMPPAGE_TOP).toNat + args := by
    have hword : esp.toNat + 8 = (USTACKTOP - TMPPAGE_TOP).toNat + (args - 8) := by omega
    rw [argvAt, hword, childPage_ld64, hargv]
  have hstring : ∀ k < argv.length, stringAt (childPage m) esp.toNat k =
      (USTACKTOP - TMPPAGE_TOP).toNat + (strings + stringOffset argv k) := by
    intro k hk
    rw [stringAt, hat, Nat.add_assoc, childPage_ld64, hpointers k hk]
  refine ⟨?_, ?_, fun k hk i hi => ?_, ?_, fun r hr => ?_⟩
  · rw [hesp, childPage_ld64, hargc]
  · rw [hat, Nat.add_assoc, childPage_ld64, hnull]
  · rw [hstring k hk, Nat.add_assoc, childPage_add]
    exact hcopies k hk i hi
  · rw [stackRegions, hat]
    refine List.pairwise_cons.mpr ⟨fun r hr => ?_, List.pairwise_cons.mpr ⟨fun r hr => ?_, ?_⟩⟩
    · -- The words lie below the pointers, and these below the strings.
      rcases List.mem_cons.mp hr with rfl | hr
      · exact .inl (by simp only; omega)
      · obtain ⟨k, hk, rfl⟩ := List.mem_mapIdx.mp hr
        rw [hstring k hk]
        exact .inl (by simp only; omega)
    · obtain ⟨k, hk, rfl⟩ := List.mem_mapIdx.mp hr
      rw [hstring k hk]
      exact .inl (by simp only; omega)
    · rw [List.pairwise_iff_getElem]
      intro i j hi hj hij
      rw [List.length_mapIdx] at hi hj
      have hnext := (stringOffset_end hi).2 j hij
      rw [List.getElem_mapIdx, List.getElem_mapIdx, hstring i hi, hstring j hj]
      exact .inl (by simp only; omega)
  · have hpage : (USTACKTOP - 4096).toNat = (USTACKTOP - TMPPAGE_TOP).toNat + 4096 := by
      have htop : (USTACKTOP - 4096).toNat = 0x3effe000 := by decide
      have hshift := toNat_stackShift
      omega
    rw [stackRegions, hat] at hr
    rw [hpage]
    rcases List.mem_cons.mp hr with rfl | hr
    · simp only
      omega
    · rcases List.mem_cons.mp hr with rfl | hr
      · simp only
        omega
      · obtain ⟨k, hk, rfl⟩ := List.mem_mapIdx.mp hr
        have hend := (stringOffset_end hk).1
        rw [hstring k hk]
        simp only
        omega

/-- Arguments that fit are laid out from the top of the page down. -/
theorem buildStack_spec (m : ByteMem) (h : stackSize argv ≤ 4096) :
    ∃ args strings, PageBuilt (buildStack m argv).1 (buildStack m argv).2 argv args strings := by
  have hlen := length_le_stringBytes argv
  unfold stackSize at h
  have htop : TMPPAGE_TOP.toNat = 8192 := by decide
  have htotal : (intWord (stringsTotal argv)).toNat = stringBytes argv := by
    rw [stringsTotal_eq]
    exact toNat_intWord_ofNat (by omega)
  have hround : (roundWord (intWord (stringsTotal argv)) 4).toNat =
      (stringBytes argv + 3) / 4 * 4 := by
    rw [toNat_round4, htotal]
    omega
  have hcount : intWord (argCount argv) = BitVec.ofNat 64 argv.length := by
    apply BitVec.eq_of_toNat_eq
    rw [argCount, toNat_intWord_ofNat (by omega), BitVec.toNat_ofNat]
    omega
  have hwords : (intWord (8 * (argCount argv + 1))).toNat = 8 * (argv.length + 1) := by
    rw [show (1 : U32) = BitVec.ofNat 32 1 from rfl, eight_mul_count]
    exact toNat_intWord_ofNat (by omega)
  have htake : argv.take (argCount argv).toInt.toNat = argv := by
    refine List.take_of_length_le ?_
    have hnat : (BitVec.ofNat 32 argv.length).toNat = argv.length := by
      rw [BitVec.toNat_ofNat]
      omega
    rw [argCount, BitVec.toInt_eq_toNat_of_lt (by omega), hnat, Int.toNat_natCast]
  have hstrings : (TMPPAGE_TOP - intWord (stringsTotal argv)).toNat = 8192 - stringBytes argv := by
    rw [BitVec.toNat_sub_of_le (by rw [BitVec.le_def]; omega), htop, htotal]
  have hargs : (TMPPAGE_TOP - roundWord (intWord (stringsTotal argv)) 4 -
      intWord (8 * (argCount argv + 1))).toNat =
        8192 - (stringBytes argv + 3) / 4 * 4 - 8 * (argv.length + 1) := by
    have hfirst : (TMPPAGE_TOP - roundWord (intWord (stringsTotal argv)) 4).toNat =
        8192 - (stringBytes argv + 3) / 4 * 4 := by
      rw [BitVec.toNat_sub_of_le (by rw [BitVec.le_def]; omega), htop, hround]
    rw [BitVec.toNat_sub_of_le (by rw [BitVec.le_def]; omega), hfirst, hwords]
  unfold buildStack
  simp only
  rw [htake, hcount]
  generalize TMPPAGE_TOP - intWord (stringsTotal argv) = strings at *
  generalize TMPPAGE_TOP - roundWord (intWord (stringsTotal argv)) 4 -
    intWord (8 * (argCount argv + 1)) = args at *
  have hend : (args + 8 * BitVec.ofNat 64 argv.length).toNat = args.toNat + 8 * argv.length := by
    rw [show (8 : Word) = BitVec.ofNat 64 8 from rfl, ← BitVec.ofNat_mul]
    exact toNat_add_ofNat (by omega)
  have h8 : (args - 8).toNat = args.toNat - 8 :=
    BitVec.toNat_sub_of_le (by rw [BitVec.le_def]; show 8 ≤ _; omega)
  have h16 : (args - 16).toNat = args.toNat - 16 :=
    BitVec.toNat_sub_of_le (by rw [BitVec.le_def]; show 16 ≤ _; omega)
  obtain ⟨hcopies, -⟩ := putStrings_spec (m := m) (a := strings) argv (by omega)
  obtain ⟨hpointers, hframe⟩ := putArgs_spec (m := putStrings m strings argv) (a := args)
    (childAddr strings) argv (by omega) (by omega)
  rw [hend, h8, h16]
  generalize hm₁ : putStrings m strings argv = m₁ at *
  generalize hm₂ : putArgs m₁ args (childAddr strings) argv = m₂ at *
  refine ⟨args.toNat, strings.toNat, ?_, ?_, ?_, ?_, ?_, ?_, ?_, fun k hk => ?_, fun k hk => ?_⟩
  · omega
  · omega
  · omega
  · rw [toNat_childAddr (by omega), h16]
  · rw [ld64_st64]
  · rw [(same_st64 (b := args.toNat - 8) (n := 8) _ (by omega)).ld64, ld64_st64,
      toNat_childAddr (by omega)]
  · rw [(same_st64 (b := args.toNat + 8 * argv.length) (n := 8) _ (by omega)).ld64,
      (same_st64 (b := args.toNat + 8 * argv.length) (n := 8) _ (by omega)).ld64, ld64_st64]
  · have hoffset := (stringOffset_end hk).1
    have hshift := toNat_stackShift
    rw [(same_st64 (b := args.toNat + 8 * k) (n := 8) _ (by omega)).ld64,
      (same_st64 (b := args.toNat + 8 * k) (n := 8) _ (by omega)).ld64,
      (same_st64 (b := args.toNat + 8 * k) (n := 8) _ (by omega)).ld64, hpointers k hk,
      toNat_add_ofNat (by rw [toNat_childAddr (by omega)]; omega), toNat_childAddr (by omega),
      Nat.add_assoc]
  · refine Holds.of_same (hcopies k hk) fun x hlo hhi => ?_
    rw [same_st64 (n := 1) _ (by omega) x (Nat.le_refl x) (by omega),
      same_st64 (n := 1) _ (by omega) x (Nat.le_refl x) (by omega),
      same_st64 (n := 1) _ (by omega) x (Nat.le_refl x) (by omega), hframe x (by omega)]

/-! ## `init_stack` -/

/-- None of the calls has failed. -/
def NoneFails (new : List Event) : Prop :=
  ∀ q r, .query q r ∈ new → (r.setWidth 32).msb = false

/-- The page is mapped below the top of the child's stack, and nowhere in the caller. -/
def StackMapped (child : U32) (new : List Event) : Prop :=
  ∃ r₁ r₂ r₃, new = [.query (.mem_alloc 0 TMPPAGE stackPerm) r₁,
    .query (.mem_map 0 TMPPAGE child (USTACKTOP - 4096) stackPerm) r₂,
    .query (.mem_unmap 0 TMPPAGE) r₃]

/-- `init_stack` rejects the arguments and makes no call; or, when its calls succeed,
    the child has them at its stack pointer.  The two functions do the same. -/
def StackRight (argv : List (List (BitVec 8))) : Prop :=
  ∀ os child s, ∃ r s' new, initStack os child argv s = .ret r s' ∧ s'.log = s.log ++ new ∧
    ((r = -E_NO_MEM ∧ new = []) ∨
      (NoneFails new → r = 0 ∧ StackMapped child new ∧
        StackLayout (childPage s'.mem) s'.esp.toNat argv)) ∧
    initStackValist os child argv s = initStack os child argv s

theorem initStack_rejects (h : 4096 < stackNeed argv) (s : SpawnSt) :
    initStack os child argv s = .ret (-E_NO_MEM) s := by
  unfold initStack
  rw [if_pos h]
  rfl

/-- `new` has been asked, and answered, since `s`. -/
structure Answered (os : Os) (s s' : SpawnSt) (new : List Event) : Prop where
  log : s'.log = s.log ++ new
  answers : ∀ q r, .query q r ∈ new → ∃ log, r = os log q

theorem Answered.ask {new : List Event} (h : Answered os s s' new) (q : Query) :
    Answered os s (s'.asked os q) (new ++ [.query q (os s'.log q)]) := by
  refine ⟨?_, fun q' r hmem => ?_⟩
  · rw [SpawnSt.asked, h.log, List.append_assoc]
  · rcases List.mem_append.mp hmem with hmem | hmem
    · exact h.answers q' r hmem
    · cases List.mem_singleton.mp hmem
      exact ⟨_, rfl⟩

/-- A call that has failed. -/
theorem not_noneFails {new : List Event} {q : Query} {r : Word} (hmem : .query q r ∈ new)
    (hr : (r.setWidth 32).msb = true) : ¬ NoneFails new := by
  intro hnone
  have hok := hnone q r hmem
  rw [hr] at hok
  cases hok

/-- Arguments that pass the check: when no call fails, the page has been built. -/
theorem initStack_builds (h : ¬ 4096 < stackNeed argv) (os : Os) (child : U32) (s : SpawnSt) :
    ∃ r s' new, initStack os child argv s = .ret r s' ∧ Answered os s s' new ∧
      (NoneFails new → r = 0 ∧ StackMapped child new ∧
        s'.mem = (buildStack (s.mem.zero TMPPAGE.toNat 4096) argv).1 ∧
        s'.esp = (buildStack (s.mem.zero TMPPAGE.toNat 4096) argv).2) := by
  unfold initStack
  have h₀ : Answered os s s [] :=
    ⟨(List.append_nil _).symm, fun _ _ hmem => absurd hmem List.not_mem_nil⟩
  have h₁ := h₀.ask (.mem_alloc 0 TMPPAGE stackPerm)
  rw [if_neg h, Prog.bind_ret (askInt_apply os _ s)]
  split
  · rename_i hfails
    refine ⟨_, _, _, rfl, h₁, fun hnone => absurd hnone ?_⟩
    exact not_noneFails (List.mem_append_right _ (List.mem_singleton_self _)) hfails
  · rw [Prog.bind_ret (Prog.modify_apply _ _)]
    have hmem : ((s.asked os (.mem_alloc 0 TMPPAGE stackPerm)).withStack argv).mem =
        (buildStack (s.mem.zero TMPPAGE.toNat 4096) argv).1 := rfl
    have hesp : ((s.asked os (.mem_alloc 0 TMPPAGE stackPerm)).withStack argv).esp =
        (buildStack (s.mem.zero TMPPAGE.toNat 4096) argv).2 := rfl
    have h₂ : Answered os s ((s.asked os (.mem_alloc 0 TMPPAGE stackPerm)).withStack argv) _ :=
      ⟨h₁.log, h₁.answers⟩
    generalize (s.asked os (.mem_alloc 0 TMPPAGE stackPerm)).withStack argv = s₂ at *
    have h₃ := h₂.ask (.mem_map 0 TMPPAGE child (USTACKTOP - 4096) stackPerm)
    rw [Prog.bind_ret (askInt_apply os _ s₂)]
    split
    · rename_i hfails
      refine ⟨_, _, _, rfl, h₃.ask (.mem_unmap 0 TMPPAGE), fun hnone => absurd hnone ?_⟩
      exact not_noneFails
        (List.mem_append_left _ (List.mem_append_right _ (List.mem_singleton_self _))) hfails
    · have h₄ := h₃.ask (.mem_unmap 0 TMPPAGE)
      rw [Prog.bind_ret (askInt_apply os _ _)]
      split
      · rename_i hfails
        refine ⟨_, _, _, rfl, h₄.ask (.mem_unmap 0 TMPPAGE), fun hnone => absurd hnone ?_⟩
        exact not_noneFails
          (List.mem_append_left _ (List.mem_append_right _ (List.mem_singleton_self _))) hfails
      · exact ⟨_, _, _, rfl, h₄, fun _ => ⟨rfl, ⟨_, _, _, rfl⟩, hmem, hesp⟩⟩

theorem StackRight.not_wraps (h : StackRight argv) : ¬ SizeWraps argv := by
  intro hwraps
  obtain ⟨s, -⟩ := spawnSt_nonempty
  obtain ⟨r, s', new, hrun, hans, hbuilt⟩ :=
    initStack_builds (check_passes_iff.mpr (.inr hwraps)) calmOs 4097 s
  have hnone : NoneFails new := by
    intro q r hmem
    obtain ⟨log, rfl⟩ := hans.answers q r hmem
    exact calmOs_calm log q
  obtain ⟨r', s'', new', hrun', hlog', hcases, -⟩ := h calmOs 4097 s
  rw [hrun] at hrun'
  cases hrun'
  rw [hans.log] at hlog'
  have hnew := List.append_cancel_left hlog'
  subst hnew
  rcases hcases with ⟨hr, -⟩ | hlayout
  · rw [(hbuilt hnone).1] at hr
    exact absurd hr (by decide)
  · have hfits := roundedSize_le_iff.mpr (hlayout hnone).2.2.size_le
    have hlarge := hwraps.1
    omega

/-- The arguments reach the child, or are rejected, exactly when the `int`s of the
    check do not wrap to a size that fits. -/
theorem stack_right_iff (argv : List (List (BitVec 8))) : StackRight argv ↔ ¬ SizeWraps argv := by
  constructor
  · exact StackRight.not_wraps
  · intro hwraps os child s
    by_cases hneed : 4096 < stackNeed argv
    · exact ⟨_, s, [], initStack_rejects hneed s, (List.append_nil _).symm, .inl ⟨rfl, rfl⟩, rfl⟩
    · have hfits := (check_passes_iff.mp hneed).resolve_right hwraps
      obtain ⟨r, s', new, hrun, hans, hbuilt⟩ := initStack_builds hneed os child s
      refine ⟨r, s', new, hrun, hans.log, .inr fun hnone => ?_, rfl⟩
      obtain ⟨hr, hmapped, hmem, hesp⟩ := hbuilt hnone
      obtain ⟨args, strings, hpage⟩ := buildStack_spec (s.mem.zero TMPPAGE.toNat 4096) hfits
      rw [← hmem, ← hesp] at hpage
      exact ⟨hr, hmapped, hpage.layout⟩

/-- `n` strings of six characters. -/
def manyStrings (n : Nat) : List (List (BitVec 8)) := List.replicate n (List.replicate 6 0x61)

theorem stringBytes_manyStrings (n : Nat) : stringBytes (manyStrings n) = 7 * n := by
  rw [stringBytes, manyStrings, List.map_replicate, List.sum_replicate_nat, List.length_replicate,
    Nat.mul_comm]

/-- So many strings that their size wraps to 8. -/
theorem manyStrings_not_right : ¬ StackRight (manyStrings 286331152) := by
  intro hright
  apply hright.not_wraps
  have hlength : (manyStrings 286331152).length = 286331152 := by
    rw [manyStrings, List.length_replicate]
  rw [SizeWraps, roundedSize, stringBytes_manyStrings, hlength]
  omega

end RpiMos
