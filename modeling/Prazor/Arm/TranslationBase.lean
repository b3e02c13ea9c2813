import Prazor.Arm.RegisterFile

/-!
# Where a page table walk starts

The walk takes N from TTBCR and the table from TTBR0 or TTBR1, by reads of
coprocessor 15 that all three give TTBR0.
-/

namespace Prazor.Arm

/-! ## The address in the architecture -/

/-- The bits of a register from `low` up, in their places. -/
def upperField (register : Word) (low : ℕ) : ℕ := register.toNat / 2 ^ low * 2 ^ low

/-- `{TTBR0[31:14-N], vaddr[31-N:20], 00}` when the top N bits of the address are
zero, and `{TTBR1[31:14], vaddr[31:20], 00}` otherwise. -/
def firstDescriptor (ttbr0 ttbr1 ttbcr vaddr : Word) : ℕ :=
  let n := ttbcr.toNat % 8
  if vaddr.toNat < 2 ^ (32 - n) then
    upperField ttbr0 (14 - n) + vaddr.toNat % 2 ^ (32 - n) / 2 ^ 20 * 4
  else upperField ttbr1 14 + vaddr.toNat / 2 ^ 20 * 4

theorem firstDescriptor_eq (ttbr0 ttbr1 ttbcr vaddr : Word) :
    firstDescriptor ttbr0 ttbr1 ttbcr vaddr =
      (if vaddr.toNat < 2 ^ (32 - ttbcr.toNat % 8) then
        upperField ttbr0 (14 - ttbcr.toNat % 8)
      else upperField ttbr1 14) + vaddr.toNat / 2 ^ 20 * 4 := by
  unfold firstDescriptor
  split
  case isTrue hlow => rw [if_pos hlow, Nat.mod_eq_of_lt hlow]
  case isFalse hhigh => rw [if_neg hhigh]

theorem upperField_add_mod (register : Word) (low : ℕ) :
    upperField register low + register.toNat % 2 ^ low = register.toNat :=
  Nat.div_add_mod' _ _

/-- A register without bits between two places has the same field from both. -/
theorem upperField_eq_iff (register : Word) {low high : ℕ} (hle : low ≤ high) :
    upperField register low = upperField register high ↔
      register.toNat % 2 ^ high < 2 ^ low := by
  have hlow := upperField_add_mod register low
  have hhigh := upperField_add_mod register high
  have hlt : register.toNat % 2 ^ low < 2 ^ low := Nat.mod_lt _ (Nat.two_pow_pos low)
  have hmod : register.toNat % 2 ^ high % 2 ^ low = register.toNat % 2 ^ low :=
    Nat.mod_mod_of_dvd _ (pow_dvd_pow 2 hle)
  constructor
  · intro heq
    omega
  · intro hsmall
    rw [Nat.mod_eq_of_lt hsmall] at hmod
    omega

/-! ## The address in the code -/

/-- No bit of a word is outside a mask when the mask leaves the word as it is. -/
theorem and_not_eq_zero_iff (word mask : Word) :
    word &&& ~~~mask = 0 ↔ word &&& mask = word := by
  constructor
  · intro hzero
    calc word &&& mask = (word &&& mask) ||| (word &&& ~~~mask) := by
          simp [hzero]
      _ = word := by
          ext i hi
          simp only [BitVec.getElem_or, BitVec.getElem_and, BitVec.getElem_not]
          cases word[i] <;> cases mask[i] <;> rfl
  · intro hsame
    rw [← hsame]
    ext i hi
    cases hword : word[i] <;> simp [hword]

/-- The test that selects TTBR1. -/
theorem highBits_eq_zero_iff (vaddr : Word) {n : ℕ} (hpos : 0 < n) (hle : n ≤ 7) :
    vaddr &&& ~~~(((1 : Word) <<< (32 - n)) - 1) = 0 ↔ vaddr.toNat < 2 ^ (32 - n) := by
  have hmask : (((1 : Word) <<< (32 - n)) - 1).toNat = 2 ^ (32 - n) - 1 := by
    interval_cases n <;> rfl
  rw [and_not_eq_zero_iff, ← BitVec.toNat_inj, BitVec.toNat_and, hmask,
    Nat.and_two_pow_sub_one_eq_mod]
  constructor
  · intro hsame
    rw [← hsame]
    exact Nat.mod_lt _ (Nat.two_pow_pos _)
  · exact Nat.mod_eq_of_lt

theorem toNat_upperField (register : Word) (low : ℕ) :
    ((register >>> low) <<< low).toNat = upperField register low := by
  rw [BitVec.toNat_shiftLeft, BitVec.toNat_ushiftRight, Nat.shiftLeft_eq,
    Nat.shiftRight_eq_div_pow]
  refine Nat.mod_eq_of_lt ?_
  exact lt_of_le_of_lt (Nat.div_mul_le_self _ _) register.isLt

theorem toNat_index (vaddr : Word) : ((vaddr >>> 20) <<< 2).toNat = vaddr.toNat / 2 ^ 20 * 4 := by
  have hlt := vaddr.isLt
  rw [BitVec.toNat_shiftLeft, BitVec.toNat_ushiftRight, Nat.shiftLeft_eq,
    Nat.shiftRight_eq_div_pow]
  omega

/-- Putting a table and an index together. -/
theorem or_eq_add (register : Word) {low index : ℕ} (hindex : index < 2 ^ low) :
    upperField register low ||| index = upperField register low + index := by
  rw [upperField, Nat.mul_comm]
  exact (Nat.two_pow_add_eq_or_of_lt hindex _).symm

namespace MemorySystem

/-- The walk starts where the architecture says for three registers that all
have the value of TTBR0. -/
theorem l1DescriptorAddr_eq (cp15 : Cp15) (vaddr : Word) :
    (l1DescriptorAddr cp15 vaddr).map BitVec.toNat =
      if cp15.reg .ttbr0 = -1 then none
      else some (firstDescriptor (cp15.reg .ttbr0) (cp15.reg .ttbr0) (cp15.reg .ttbr0)
        vaddr) := by
  have hread : ∀ (register : Register) c, register.coordinate = some c → register.source = .ttbr0 →
      cp15.read c = Cp15.shown (cp15.reg .ttbr0) := by
    intro register c hregister hsource
    rw [Cp15.read_of_coordinate hregister, hsource]
  rw [l1DescriptorAddr, hread .ttbcr _ rfl rfl, hread .ttbr1 _ rfl rfl,
    hread .ttbr0 _ rfl rfl]
  generalize cp15.reg .ttbr0 = ttbr0
  by_cases hones : ttbr0 = -1
  · rw [if_pos hones, Cp15.shown, if_pos hones]
    rfl
  rw [if_neg hones, Cp15.shown, if_neg hones, Option.bind_some]
  have hn : (ttbr0 &&& 0x7).toNat = ttbr0.toNat % 8 := by
    rw [BitVec.toNat_and]
    exact Nat.and_two_pow_sub_one_eq_mod ttbr0.toNat 3
  dsimp only
  rw [hn, firstDescriptor_eq]
  have hle : ttbr0.toNat % 8 ≤ 7 := Nat.lt_succ_iff.mp (Nat.mod_lt _ (by norm_num))
  generalize ttbr0.toNat % 8 = n at hle
  have hvaddr := vaddr.isLt
  have htest : (0 < n ∧ vaddr &&& ~~~(((1 : Word) <<< (32 - n)) - 1) ≠ 0) ↔
      ¬vaddr.toNat < 2 ^ (32 - n) := by
    rcases Nat.eq_zero_or_pos n with rfl | hpos
    · constructor
      · exact fun h => absurd h.1 (lt_irrefl 0)
      · exact fun h => absurd hvaddr h
    · rw [ne_eq, highBits_eq_zero_iff vaddr hpos hle]
      exact ⟨fun h => h.2, fun h => ⟨hpos, h⟩⟩
  by_cases hlow : vaddr.toNat < 2 ^ (32 - n)
  · rw [if_neg fun h => htest.mp h hlow, if_pos hlow, Option.map_some, Option.map_some,
      Option.some.injEq, BitVec.toNat_or, toNat_upperField]
    have hkept : (vaddr <<< n) >>> n = vaddr := by
      rw [← BitVec.toNat_inj, BitVec.toNat_ushiftRight, BitVec.toNat_shiftLeft,
        Nat.shiftLeft_eq, Nat.shiftRight_eq_div_pow, Nat.mod_eq_of_lt,
        Nat.mul_div_cancel _ (Nat.two_pow_pos n)]
      calc vaddr.toNat * 2 ^ n < 2 ^ (32 - n) * 2 ^ n :=
            Nat.mul_lt_mul_of_pos_right hlow (Nat.two_pow_pos n)
        _ = 2 ^ 32 := by rw [← pow_add, Nat.sub_add_cancel (by omega)]
    rw [hkept, toNat_index]
    refine or_eq_add ttbr0 ?_
    have hsplit : 2 ^ (32 - n) = 2 ^ (14 - n) * 2 ^ 18 := by
      rw [← pow_add]
      congr 1
      omega
    omega
  · rw [if_pos (htest.mpr hlow), if_neg hlow, Option.map_some, Option.map_some,
      Option.some.injEq, BitVec.toNat_or, toNat_upperField, toNat_index]
    exact or_eq_add ttbr0 (by omega)

end MemorySystem

/-! ## When the two addresses are the same -/

/-- The registers for which reading TTBR0 three times does no harm. -/
structure BasesAgree (ttbr0 ttbr1 ttbcr : Word) : Prop where
  readable : ttbr0 ≠ -1
  width : ttbr0.toNat % 8 = ttbcr.toNat % 8 ∨
    ttbr0.toNat % 2 ^ 14 < 2 ^ (14 - max (ttbr0.toNat % 8) (ttbcr.toNat % 8))
  table : ttbcr.toNat % 8 ≠ 0 → upperField ttbr1 14 = upperField ttbr0 14

theorem firstDescriptor_of_agree {ttbr0 ttbr1 ttbcr : Word}
    (hagree : BasesAgree ttbr0 ttbr1 ttbcr) (vaddr : Word) :
    firstDescriptor ttbr0 ttbr0 ttbr0 vaddr = firstDescriptor ttbr0 ttbr1 ttbcr vaddr := by
  obtain ⟨-, hwidth, htable⟩ := hagree
  rw [firstDescriptor_eq, firstDescriptor_eq]
  have hlt := vaddr.isLt
  have hhigh : ¬vaddr.toNat < 2 ^ (32 - ttbcr.toNat % 8) →
      upperField ttbr1 14 = upperField ttbr0 14 := by
    intro hnot
    refine htable fun hzero => hnot ?_
    rw [hzero]
    exact hlt
  rcases hwidth with hsame | hclear
  · rw [hsame]
    by_cases hlow : vaddr.toNat < 2 ^ (32 - ttbcr.toNat % 8)
    · rw [if_pos hlow, if_pos hlow]
    · rw [if_neg hlow, if_neg hlow, hhigh hlow]
  · -- all the fields of TTBR0 are the same
    have hfield : ∀ n, n ≤ max (ttbr0.toNat % 8) (ttbcr.toNat % 8) →
        upperField ttbr0 (14 - n) = upperField ttbr0 14 := by
      intro n hn
      refine (upperField_eq_iff ttbr0 (Nat.sub_le 14 n)).mpr (lt_of_lt_of_le hclear ?_)
      exact Nat.pow_le_pow_right (by norm_num) (by omega)
    rw [hfield _ (le_max_left _ _), hfield _ (le_max_right _ _), ite_self]
    by_cases hlow : vaddr.toNat < 2 ^ (32 - ttbcr.toNat % 8)
    · rw [if_pos hlow]
    · rw [if_neg hlow, hhigh hlow]

theorem agree_of_firstDescriptor {ttbr0 ttbr1 ttbcr : Word} (hreadable : ttbr0 ≠ -1)
    (hsame : ∀ vaddr, firstDescriptor ttbr0 ttbr0 ttbr0 vaddr =
      firstDescriptor ttbr0 ttbr1 ttbcr vaddr) :
    BasesAgree ttbr0 ttbr1 ttbcr := by
  have hbase : ∀ vaddr, vaddr < 2 ^ 32 →
      (if vaddr < 2 ^ (32 - ttbr0.toNat % 8) then upperField ttbr0 (14 - ttbr0.toNat % 8)
        else upperField ttbr0 14) =
      if vaddr < 2 ^ (32 - ttbcr.toNat % 8) then upperField ttbr0 (14 - ttbcr.toNat % 8)
        else upperField ttbr1 14 := by
    intro vaddr hlt
    have heq := hsame (BitVec.ofNat 32 vaddr)
    rw [firstDescriptor_eq, firstDescriptor_eq, BitVec.toNat_ofNat, Nat.mod_eq_of_lt hlt] at heq
    exact Nat.add_right_cancel heq
  generalize hm : ttbr0.toNat % 8 = m at hbase
  generalize hn : ttbcr.toNat % 8 = n at hbase
  have hm7 : m ≤ 7 := by omega
  have hn7 : n ≤ 7 := by omega
  have hpow : ∀ k, 0 < k → k ≤ 7 → 2 ^ (32 - k) < 2 ^ 32 := fun k hpos _ =>
    Nat.pow_lt_pow_right (by norm_num) (by omega)
  -- the last address has its top bits set, the first one has none
  have hlast := hbase (2 ^ 32 - 1) (by norm_num)
  have hfirst := hbase 0 (by norm_num)
  rw [if_pos (Nat.two_pow_pos _), if_pos (Nat.two_pow_pos _)] at hfirst
  have htable : n ≠ 0 → upperField ttbr1 14 = upperField ttbr0 14 := by
    intro hpos
    have hnhigh := hpow n (Nat.pos_of_ne_zero hpos) hn7
    rw [if_neg (by omega : ¬2 ^ 32 - 1 < 2 ^ (32 - n))] at hlast
    rw [← hlast]
    rcases Nat.eq_zero_or_pos m with rfl | hmpos
    · rw [if_pos (by norm_num)]
    · have hmhigh := hpow m hmpos hm7
      rw [if_neg (by omega)]
  refine ⟨hreadable, ?_, hn ▸ htable⟩
  rw [hm, hn]
  by_cases hwidth : m = n
  · exact .inl hwidth
  refine .inr ?_
  rw [← upperField_eq_iff ttbr0 (Nat.sub_le 14 _)]
  rcases Nat.lt_or_gt_of_ne hwidth with hlt | hgt
  · have hnpos : n ≠ 0 := by omega
    have hedge := hbase (2 ^ (32 - n)) (hpow n (by omega) hn7)
    have hbelow : 2 ^ (32 - n) < 2 ^ (32 - m) :=
      Nat.pow_lt_pow_right (by norm_num) (by omega)
    rw [if_pos hbelow, if_neg (lt_irrefl _), htable hnpos] at hedge
    rw [max_eq_right hlt.le, ← hfirst, hedge]
  · have hedge := hbase (2 ^ (32 - m)) (hpow m (by omega) hm7)
    have hbelow : 2 ^ (32 - m) < 2 ^ (32 - n) :=
      Nat.pow_lt_pow_right (by norm_num) (by omega)
    rw [if_neg (lt_irrefl _), if_pos hbelow] at hedge
    rw [max_eq_left hgt.le, hfirst, hedge]

namespace MemorySystem

variable {memory : Word → Option Word64}

/-- A table register holds what was written to it last. -/
theorem reg_latest {register : Register} {c : Coordinate}
    (hregister : register.coordinate = some c)
    (htable : register = .ttbr0 ∨ register = .ttbr1 ∨ register = .ttbcr)
    {sys final : MemorySystem} {writes : List RegisterWrite} {data : Word}
    (hrun : Guarded.exec (writeStep memory) sys writes = some final)
    (hlatest : Guarded.latest (written c) writes = some data) :
    final.cp15.reg register = data := by
  have hstep : ∀ sys write next, True → writeStep memory sys write = some next →
      next.cp15.reg register =
        (written c write).elim (sys.cp15.reg register) fun data => data := by
    intro sys write next _ hstep
    obtain ⟨⟨_, messages⟩, hwrite, rfl⟩ := Option.map_eq_some_iff.mp hstep
    have hreg := reg_write hregister hwrite
      (fun _ h => by rcases htable with rfl | rfl | rfl <;> cases h)
      (fun h => by rcases htable with rfl | rfl | rfl <;> rcases h with h | h <;> cases h)
    rw [hreg]
    cases written c write <;> rfl
  have hall : Guarded.Meets (writeStep memory) (fun _ _ => True) sys writes :=
    Guarded.meets_of_forall sys fun _ _ => trivial
  have hview := Guarded.exec_latest hstep hall hrun
  rw [hlatest] at hview
  exact hview

/-- The walk starts where the architecture says, for every address, for exactly
the values of the table registers that agree. -/
theorem walk_starts_iff (memory : Word → Option Word64) (sys final : MemorySystem)
    (writes : List RegisterWrite) (ttbr0 ttbr1 ttbcr : Word)
    (hrun : Guarded.exec (writeStep memory) sys writes = some final)
    (httbr0 : Guarded.latest (written ⟨2, 0, 0, 0⟩) writes = some ttbr0)
    (_httbr1 : Guarded.latest (written ⟨2, 0, 0, 1⟩) writes = some ttbr1)
    (_httbcr : Guarded.latest (written ⟨2, 0, 0, 2⟩) writes = some ttbcr) :
    (∀ vaddr, (l1DescriptorAddr final.cp15 vaddr).map BitVec.toNat =
        some (firstDescriptor ttbr0 ttbr1 ttbcr vaddr)) ↔
      BasesAgree ttbr0 ttbr1 ttbcr := by
  have hreg0 := reg_latest rfl (.inl rfl) hrun httbr0
  simp only [l1DescriptorAddr_eq, hreg0]
  constructor
  · intro hsame
    have hreadable : ttbr0 ≠ -1 := by
      intro hones
      have hnone := hsame 0
      rw [if_pos hones] at hnone
      cases hnone
    refine agree_of_firstDescriptor hreadable fun vaddr => ?_
    have hvaddr := hsame vaddr
    rw [if_neg hreadable, Option.some.injEq] at hvaddr
    exact hvaddr
  · intro hagree vaddr
    rw [if_neg hagree.readable, firstDescriptor_of_agree hagree]

/-- The writes that set up one table for both halves of the addresses. -/
def oneTable : List RegisterWrite :=
  [(⟨2, 0, 0, 0⟩, 0x4000), (⟨2, 0, 0, 1⟩, 0x4000), (⟨2, 0, 0, 2⟩, 1)]

theorem walk_starts_oneTable :
    ∃ final, Guarded.exec (writeStep fun _ => none) afterReset oneTable = some final ∧
      ∀ vaddr, (l1DescriptorAddr final.cp15 vaddr).map BitVec.toNat =
        some (firstDescriptor 0x4000 0x4000 1 vaddr) := by
  refine ⟨_, rfl, ?_⟩
  exact (walk_starts_iff (fun _ => none) afterReset _ oneTable 0x4000 0x4000 1 rfl rfl rfl
    rfl).mpr ⟨by decide, .inr (by decide), fun _ => rfl⟩

/-- Two tables are set up, and the upper half of the addresses starts in the
lower one. -/
theorem not_walk_starts_twoTables :
    ¬∀ (memory : Word → Option Word64) (sys final : MemorySystem)
      (writes : List RegisterWrite) (ttbr0 ttbr1 ttbcr : Word),
      Guarded.exec (writeStep memory) sys writes = some final →
      Guarded.latest (written ⟨2, 0, 0, 0⟩) writes = some ttbr0 →
      Guarded.latest (written ⟨2, 0, 0, 1⟩) writes = some ttbr1 →
      Guarded.latest (written ⟨2, 0, 0, 2⟩) writes = some ttbcr →
      ∀ vaddr, (l1DescriptorAddr final.cp15 vaddr).map BitVec.toNat =
        some (firstDescriptor ttbr0 ttbr1 ttbcr vaddr) := by
  intro hclaim
  have hstart := hclaim (fun _ => none) afterReset _
    [(⟨2, 0, 0, 0⟩, 0x4000), (⟨2, 0, 0, 1⟩, 0x8000), (⟨2, 0, 0, 2⟩, 1)] 0x4000 0x8000 1
    rfl rfl rfl rfl 0x80000000
  revert hstart
  decide

end MemorySystem

end Prazor.Arm
