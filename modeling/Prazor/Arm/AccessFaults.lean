import Prazor.Arm.DataAccess

/-!
# Faults of the parts of an access

An access of several parts is one operation to the program: it should report a fault of any
part, and otherwise move all of its bytes.
-/

namespace Prazor.Arm.DataAccess

open Prazor.Bus Prazor.Tlm Prazor.Bytes

variable {core : ArmcoreTlm} {target : Target} {width : Width} {mem : LaneMemory}
  {addr a64 wdata : Word64} {linked : Bool} {n m : ℕ}

/-! ## Values in memory -/

/-- The bytes of a value are those of the memory, the least significant byte first. -/
def BytesAt (mem : LaneMemory) (addr : Word64) (count : ℕ) {w : ℕ} (value : BitVec w) : Prop :=
  ∀ i < count, value.extractLsb' (8 * i) 8 = mem (addr + BitVec.ofNat 64 i)

/-- The value of some bytes of the memory. -/
structure LittleEndian (mem : LaneMemory) (addr : Word64) (count : ℕ) {w : ℕ}
    (value : BitVec w) : Prop where
  bytes : BytesAt mem addr count value
  lt : value.toNat < 2 ^ (8 * count)

theorem getLsbD_of_lt {w : ℕ} {value : BitVec w} {k i : ℕ} (hlt : value.toNat < 2 ^ k)
    (hi : k ≤ i) : value.getLsbD i = false :=
  Nat.testBit_lt_two_pow (hlt.trans_le (Nat.pow_le_pow_right (by norm_num) hi))

/-- A value and one behind it are a value. -/
theorem BytesAt.join {w : ℕ} {low high : BitVec w} (hlow : BytesAt mem addr n low)
    (hlt : low.toNat < 2 ^ (8 * n)) (hhigh : BytesAt mem (addr + BitVec.ofNat 64 n) m high)
    (hfit : 8 * (n + m) ≤ w) : BytesAt mem addr (n + m) (low ||| high <<< (8 * n)) := by
  intro i hi
  by_cases hin : i < n
  · rw [← hlow i hin]
    apply BitVec.eq_of_getLsbD_eq
    intro b hb
    have hbelow : 8 * i + b < 8 * n := by omega
    simp [hbelow]
  · have haddr : addr + BitVec.ofNat 64 i =
        addr + BitVec.ofNat 64 n + BitVec.ofNat 64 (i - n) := by
      rw [BitVec.add_assoc, ← BitVec.ofNat_add, Nat.add_sub_cancel' (Nat.not_lt.mp hin)]
    rw [haddr, ← hhigh (i - n) (by omega)]
    apply BitVec.eq_of_getLsbD_eq
    intro b hb
    have hzero : low.getLsbD (8 * i + b) = false := getLsbD_of_lt hlt (by omega)
    have hinside : 8 * i + b < w := by omega
    have habove : ¬8 * i + b < 8 * n := by omega
    have hoffset : 8 * i + b - 8 * n = 8 * (i - n) + b := by omega
    rw [BitVec.getLsbD_extractLsb', BitVec.getLsbD_extractLsb', BitVec.getLsbD_or, hzero,
      BitVec.getLsbD_shiftLeft, decide_eq_true hinside, decide_eq_false habove, hoffset]
    simp

/-- The rest of a value is that of its other bytes. -/
theorem BytesAt.drop {w : ℕ} {value : BitVec w} (hbytes : BytesAt mem addr (n + m) value) :
    BytesAt mem (addr + BitVec.ofNat 64 n) m (value >>> (8 * n)) := by
  intro i hi
  rw [BitVec.add_assoc, ← BitVec.ofNat_add, ← hbytes (n + i) (by omega)]
  apply BitVec.eq_of_getLsbD_eq
  intro b hb
  have hoffset : 8 * n + (8 * i + b) = 8 * (n + i) + b := by omega
  simp [hb, hoffset]

theorem BytesAt.setWidth {w v : ℕ} {value : BitVec w} (hbytes : BytesAt mem addr n value)
    (hfit : 8 * n ≤ v) : BytesAt mem addr n (value.setWidth v) := by
  intro i hi
  rw [← hbytes i hi]
  apply BitVec.eq_of_getLsbD_eq
  intro b hb
  have hinside : 8 * i + b < v := by omega
  simp [hb, hinside]

theorem toNat_setWidth_lt {w v : ℕ} (value : BitVec w) : (value.setWidth v).toNat < 2 ^ w := by
  rw [BitVec.toNat_setWidth]
  exact (Nat.mod_le _ _).trans_lt value.isLt

/-- A value of its own width. -/
theorem BytesAt.littleEndian {v : ℕ} {value : BitVec width.bits}
    (hbytes : BytesAt mem addr width.bytes value) (hfit : width.bits ≤ v) :
    LittleEndian mem addr width.bytes (value.setWidth v) :=
  ⟨hbytes.setWidth hfit, toNat_setWidth_lt value⟩

/-! ## One operation of the bus -/

/-- The target after a transaction that changes nothing. -/
def Target.next (target : Target) : Target := { target with served := target.served + 1 }

theorem loadThrough_refused (hfault : core.fault target.served = true) (memaddr stale : Word64)
    (not64 : ℕ) :
    loadThrough (core.socket linked) target memaddr not64 stale = (target.next, none) := by
  simp only [loadThrough, ArmcoreTlm.socket, transport, hfault, if_true]
  rfl

theorem loadThrough_granted (hgranted : core.fault target.served = false)
    (memaddr stale : Word64) (not64 : ℕ) :
    loadThrough (core.socket linked) target memaddr not64 stale =
      (target.next, (loadThrough (LaneMemory.transport core.answer) target.mem memaddr not64
        stale).2) := by
  simp only [loadThrough, ArmcoreTlm.socket, transport, hgranted, Bool.false_eq_true, if_false]
  rfl

/-- A 32-bit load is one of the reads. -/
theorem evalMem32_loadThrough {Memory : Type*} (socket : Memory → Payload → Memory × Payload)
    (memory : Memory) (memaddr stale : Word64) :
    evalMem32 0 socket memory memaddr stale =
      if uncachedAddressSpace64 memaddr then
        let answer := loadThrough socket memory
          ((memaddr &&& ~~~3) ^^^ BitVec.ofNat 64 (0 &&& 4)) 2 stale
        (answer.1, answer.2.map fun rdata => rdata.setWidth 32)
      else
        let answer := loadThrough socket memory (memaddr &&& ~~~7) 3 stale
        (answer.1, answer.2.map fun (rdata : Word64) =>
          (rdata >>> (8 * ((BitVec.ofNat 64 0 ^^^ memaddr) &&& 4).toNat)).setWidth 32) := by
  simp only [evalMem32, loadThrough]
  split_ifs <;> rfl

theorem not_split (heven : addr.toNat % 2 = 0) : ¬(addr &&& ~~~7) + 8 - addr = 1 := by
  rw [split_iff]
  omega

/-- A load is refused as a whole. -/
theorem evalMem_refused (hfault : core.fault target.served = true)
    (heven : width = .w16 → addr.toNat % 2 = 0) :
    core.evalMem linked target width addr = (target.next, none) := by
  rw [ArmcoreTlm.evalMem]
  cases width with
  | w8 =>
      simp only [Bus.evalMem, evalMem8, loadThrough_refused hfault, Option.map_none, ite_self]
  | w16 =>
      simp only [Bus.evalMem, evalMem16, if_neg (not_split (heven rfl)),
        loadThrough_refused hfault, Option.map_none]
  | w32 =>
      simp only [Bus.evalMem, evalMem32_loadThrough, loadThrough_refused hfault, Option.map_none,
        ite_self]
  | w64 => exact loadThrough_refused hfault addr core.left 3

/-- A load that is granted is that of the memory. -/
theorem evalMem_granted (hgranted : core.fault target.served = false)
    (heven : width = .w16 → addr.toNat % 2 = 0) :
    core.evalMem linked target width addr =
      (target.next, (Bus.evalMem core.bigEndianDefined 0 (LaneMemory.transport core.answer)
        target.mem width addr core.left).2) := by
  rw [ArmcoreTlm.evalMem]
  cases width with
  | w8 =>
      simp only [Bus.evalMem, evalMem8, loadThrough_granted hgranted]
      split_ifs <;> rfl
  | w16 =>
      simp only [Bus.evalMem, evalMem16, if_neg (not_split (heven rfl)),
        loadThrough_granted hgranted]
  | w32 =>
      simp only [Bus.evalMem, evalMem32_loadThrough, loadThrough_granted hgranted]
      split_ifs <;> rfl
  | w64 => exact loadThrough_granted hgranted addr core.left 3

/-- An operation that is not split. -/
def Whole (width : Width) (addr : Word64) : Prop := width = .w64 ∨ width.bytes ∣ addr.toNat

theorem Whole.even (hwhole : Whole width addr) (hwidth : width = .w16) :
    addr.toNat % 2 = 0 := by
  subst hwidth
  rcases hwhole with hwide | haligned
  · cases hwide
  · exact Nat.mod_eq_zero_of_dvd haligned

/-- A load that is granted gives the bytes of the memory. -/
theorem evalMem_bytes (hgranted : core.fault target.served = false)
    (hwhole : Whole width addr) :
    ∃ value : BitVec width.bits, core.evalMem linked target width addr =
      (target.next, some value) ∧ BytesAt target.mem addr width.bytes value := by
  have hlanes : LoadsLanes 0 target.mem width addr
      (Bus.evalMem core.bigEndianDefined 0 (LaneMemory.transport core.answer) target.mem width
        addr core.left) := by
    by_cases hwide : width = .w64
    · subst hwide
      exact evalMem64_lanes (Or.inl rfl) core.left
    · exact evalMem_lanes core.bigEndianDefined (Or.inl rfl) (hwhole.resolve_left hwide) core.left
  obtain ⟨value, hload, hbytes⟩ := hlanes
  refine ⟨value, ?_, fun i hi => ?_⟩
  · rw [evalMem_granted hgranted hwhole.even, hload]
  · rw [hbytes i hi, busAddress, Nat.zero_and, BitVec.xor_zero]

/-- A load succeeds exactly if it is granted. -/
theorem evalMem_spec (core : ArmcoreTlm) (linked : Bool) (target : Target)
    (hwhole : Whole width addr) :
    ∃ answer : Option (BitVec width.bits),
      core.evalMem linked target width addr = (target.next, answer) ∧
      answer.isSome = !core.fault target.served ∧
      (core.fault target.served = false → ∀ value ∈ answer,
        BytesAt target.mem addr width.bytes value) := by
  cases hfault : core.fault target.served with
  | true => exact ⟨none, evalMem_refused hfault hwhole.even, rfl, fun h => absurd h (by simp)⟩
  | false =>
      obtain ⟨value, hload, hbytes⟩ :=
        @evalMem_bytes core target width addr linked hfault hwhole
      refine ⟨some value, hload, rfl, fun _ value' hvalue => ?_⟩
      cases hvalue
      exact hbytes

/-- Two loads report the fault of the second one only. -/
theorem evalTwo_spec (core : ArmcoreTlm) (linked : Bool) (target : Target)
    {first second : Word64} (hfirst : Whole width first) (hsecond : Whole width second) :
    ∃ low high : BitVec width.bits, core.evalTwo linked target width first second =
        (target.next.next, low, high, !core.fault (target.served + 1)) ∧
      (core.fault target.served = false → core.fault (target.served + 1) = false →
        BytesAt target.mem first width.bytes low ∧
        BytesAt target.mem second width.bytes high) := by
  obtain ⟨part1, hload1, hsome1, hbytes1⟩ := evalMem_spec core linked target hfirst
  obtain ⟨part2, hload2, hsome2, hbytes2⟩ := evalMem_spec core linked target.next hsecond
  refine ⟨part1.getD (core.left.setWidth _), part2.getD (core.left.setWidth _), ?_, ?_⟩
  · rw [ArmcoreTlm.evalTwo, hload1]
    dsimp only
    rw [hload2]
    dsimp only
    rw [hsome2]
    rfl
  · intro hgranted1 hgranted2
    have hgranted2' : core.fault target.next.served = false := hgranted2
    rw [hgranted1] at hsome1
    rw [hgranted2'] at hsome2
    obtain ⟨low, rfl⟩ := Option.isSome_iff_exists.mp hsome1
    obtain ⟨high, rfl⟩ := Option.isSome_iff_exists.mp hsome2
    exact ⟨hbytes1 hgranted1 low rfl, hbytes2 hgranted2' high rfl⟩

/-! ## Loads -/

/-- The loads that become two operations. -/
def SplitLoad (a64 : Word64) : Width → Prop
  | .w8 => False
  | .w16 => a64 &&& 1 ≠ 0
  | .w32 => a64 &&& 3 ≠ 0
  | .w64 => a64 &&& 4 ≠ 0 ∧ a64 &&& 3 = 0

/-- A load has given the value of its bytes. -/
def ReadFields.Gives (fields : ReadFields) (mem : LaneMemory) (a64 : Word64) : Width → Prop
  | .w64 => LittleEndian mem a64 8 fields.readData64
  | width => LittleEndian mem a64 width.bytes fields.readData

/-- The address goes on to the bus. -/
def OnBus (core : ArmcoreTlm) (vmemaddr : Word) : Prop :=
  vmemaddr ≠ 0xFFFFFFFC ∧ core.backdoorRead vmemaddr = none

theorem toNat_low (a64 : Word64) {k : ℕ} (hk : k ≤ 3) :
    (a64 &&& BitVec.ofNat 64 (2 ^ k - 1)).toNat = a64.toNat % 2 ^ k := by
  have hlow : 2 ^ k - 1 < 8 := by
    have hle : 2 ^ k ≤ 2 ^ 3 := Nat.pow_le_pow_right (by norm_num) hk
    omega
  have hdvd : 2 ^ k ∣ 8 := Nat.pow_dvd_pow 2 hk
  rw [and_lane hlow, Nat.and_two_pow_sub_one_eq_mod, Nat.mod_mod_of_dvd _ hdvd]

theorem low_eq_zero_iff (a64 : Word64) {k : ℕ} (hk : k ≤ 3) :
    a64 &&& BitVec.ofNat 64 (2 ^ k - 1) = 0 ↔ 2 ^ k ∣ a64.toNat := by
  rw [← BitVec.toNat_inj, toNat_low a64 hk]
  exact (Nat.dvd_iff_mod_eq_zero ..).symm

theorem whole_byte (addr : Word64) : Whole .w8 addr := Or.inr (one_dvd _)

/-- A short load at an odd address. -/
theorem gives_short {low high : BitVec 8} (hlow : BytesAt mem a64 1 low)
    (hhigh : BytesAt mem (a64 + 1) 1 high) :
    LittleEndian mem a64 2 (high.setWidth 32 <<< 8 ||| low.setWidth 32) := by
  have hlt : (low.setWidth 32).toNat < 2 ^ (8 * 1) := toNat_setWidth_lt low
  have hbytes := BytesAt.join (hlow.setWidth (v := 32) (by norm_num)) hlt
    (hhigh.setWidth (v := 32) (by norm_num)) (by norm_num)
  rw [BitVec.or_comm]
  refine ⟨hbytes, ?_⟩
  have hhigh' : (high.setWidth 32).toNat < 2 ^ 8 := toNat_setWidth_lt high
  rw [BitVec.toNat_or, BitVec.toNat_shiftLeft, Nat.shiftLeft_eq]
  apply Nat.or_lt_two_pow
  · exact hlt.trans (by norm_num)
  · exact (Nat.mod_le _ _).trans_lt (by omega)

/-- A word across two words of the memory. -/
theorem gives_word {part1 part2 : BitVec 32} (hpart1 : BytesAt mem (a64 &&& ~~~3) 4 part1)
    (hpart2 : BytesAt mem ((a64 &&& ~~~3) + 4) 4 part2) :
    LittleEndian mem a64 4 (part1 >>> ((a64 &&& 3).toNat * 8) |||
      part2 <<< (32 - 8 * (a64 &&& 3).toNat)) := by
  have hword := toNat_wordOf a64
  have hlow := toNat_low a64 (k := 2) (by norm_num)
  change (a64 &&& 3).toNat = a64.toNat % 4 at hlow
  rw [wordOf] at hword
  generalize hk : (a64 &&& 3).toNat = k at *
  have hle : k < 4 := by omega
  have hstart : (a64 &&& ~~~3) + BitVec.ofNat 64 k = a64 := by
    apply BitVec.eq_of_toNat_eq
    rw [BitVec.toNat_add, hword, BitVec.toNat_ofNat]
    omega
  have hsecond : (a64 &&& ~~~3) + 4 = a64 + BitVec.ofNat 64 (4 - k) := by
    have hfour : (4 : Word64) = BitVec.ofNat 64 k + BitVec.ofNat 64 (4 - k) := by
      rw [← BitVec.ofNat_add, Nat.add_sub_cancel' hle.le]
      rfl
    rw [hfour, ← BitVec.add_assoc, hstart]
  have hbelow : BytesAt mem a64 (4 - k) (part1 >>> (8 * k)) := by
    have hsplit : BytesAt mem (a64 &&& ~~~3) (k + (4 - k)) part1 := by
      rwa [Nat.add_sub_cancel' hle.le]
    rw [← hstart]
    exact hsplit.drop
  have habove : BytesAt mem (a64 + BitVec.ofNat 64 (4 - k)) k part2 := by
    rw [← hsecond]
    exact fun i hi => hpart2 i (by omega)
  have hlt : (part1 >>> (8 * k)).toNat < 2 ^ (8 * (4 - k)) := by
    rw [BitVec.toNat_ushiftRight, Nat.shiftRight_eq_div_pow]
    apply Nat.div_lt_of_lt_mul
    rw [← pow_add]
    have hbits : 8 * k + 8 * (4 - k) = 32 := by omega
    rw [hbits]
    exact part1.isLt
  have hbytes := hbelow.join hlt habove (by omega)
  have hshift : 32 - 8 * k = 8 * (4 - k) := by omega
  rw [Nat.sub_add_cancel hle.le] at hbytes
  rw [hshift, Nat.mul_comm k 8]
  exact ⟨hbytes, BitVec.isLt _⟩

/-- A doubleword of two words. -/
theorem gives_doubleword {low high : BitVec 32} (hlow : BytesAt mem a64 4 low)
    (hhigh : BytesAt mem (a64 + 4) 4 high) :
    LittleEndian mem a64 8 (low.setWidth 64 ||| high.setWidth 64 <<< 32) := by
  have hlt : (low.setWidth 64).toNat < 2 ^ (8 * 4) := toNat_setWidth_lt low
  exact ⟨BytesAt.join (hlow.setWidth (v := 64) (by norm_num)) hlt
    (hhigh.setWidth (v := 64) (by norm_num)) (by norm_num), BitVec.isLt _⟩

section Load

variable {vmemaddr : Word} {fields : ReadFields} (linked : Bool)

theorem toNat_a64 (vmemaddr : Word) :
    (vmemaddr.setWidth 64 : Word64).toNat = vmemaddr.toNat :=
  BitVec.toNat_setWidth_of_le (by norm_num)

/-- The two words of a doubleword that is at an odd word. -/
theorem whole_words (hlow : a64 &&& 3 = 0) (hlt : a64.toNat < 2 ^ 32) :
    Whole .w32 a64 ∧ Whole .w32 (a64 + 4) := by
  have hdvd : 4 ∣ a64.toNat := (low_eq_zero_iff a64 (k := 2) (by norm_num)).mp hlow
  have hfour : (4 : Word64).toNat = 4 := rfl
  refine ⟨Or.inr hdvd, Or.inr ?_⟩
  rw [BitVec.toNat_add, hfour, Nat.mod_eq_of_lt (by omega)]
  exact Nat.dvd_add hdvd (dvd_refl 4)

/-- A load of two operations reports the fault of the second one only. -/
theorem split_load (core : ArmcoreTlm) (target : Target) (fields : ReadFields)
    (hbus : OnBus core vmemaddr) (hsplit : SplitLoad (vmemaddr.setWidth 64) width) :
    ∃ after, core.armisaRead1 target fields vmemaddr width linked =
        some ⟨target.next.next, after, !core.fault (target.served + 1)⟩ ∧
      (core.fault target.served = false → core.fault (target.served + 1) = false →
        after.Gives target.mem (vmemaddr.setWidth 64) width) := by
  have ha64 := toNat_a64 vmemaddr
  have hvmemaddr := vmemaddr.isLt
  unfold ArmcoreTlm.armisaRead1
  dsimp only
  rw [if_neg hbus.1, hbus.2]
  generalize (vmemaddr.setWidth 64 : Word64) = a64 at *
  cases width with
  | w8 => exact hsplit.elim
  | w16 =>
      rw [SplitLoad] at hsplit
      obtain ⟨low, high, hload, hbytes⟩ :=
        evalTwo_spec core linked target (whole_byte a64) (whole_byte (a64 + 1))
      dsimp only
      rw [if_pos hsplit, hload]
      refine ⟨_, rfl, fun hfirst hsecond => ?_⟩
      exact gives_short (hbytes hfirst hsecond).1 (hbytes hfirst hsecond).2
  | w32 =>
      rw [SplitLoad] at hsplit
      have hword := toNat_wordOf a64
      rw [wordOf] at hword
      have hfour : (4 : Word64).toNat = 4 := rfl
      have hfirst : Whole .w32 (a64 &&& ~~~3) := by
        apply Or.inr
        rw [hword]
        exact Nat.dvd_sub_mod _
      have hsecond : Whole .w32 ((a64 &&& ~~~3) + 4) := by
        apply Or.inr
        rw [BitVec.toNat_add, hfour, hword, Nat.mod_eq_of_lt (by omega)]
        exact Nat.dvd_add (Nat.dvd_sub_mod _) (dvd_refl 4)
      obtain ⟨part1, part2, hload, hbytes⟩ := evalTwo_spec core linked target hfirst hsecond
      dsimp only
      rw [if_pos hsplit, hload]
      refine ⟨_, rfl, fun hgranted1 hgranted2 => ?_⟩
      exact gives_word (hbytes hgranted1 hgranted2).1 (hbytes hgranted1 hgranted2).2
  | w64 =>
      obtain ⟨hfirst, hsecond⟩ := whole_words hsplit.2 (by omega)
      obtain ⟨low, high, hload, hbytes⟩ := evalTwo_spec core linked target hfirst hsecond
      dsimp only
      rw [if_pos hsplit.1, if_neg (not_not.mpr hsplit.2), hload]
      refine ⟨_, rfl, fun hgranted1 hgranted2 => ?_⟩
      exact gives_doubleword (hbytes hgranted1 hgranted2).1 (hbytes hgranted1 hgranted2).2

/-- A load of one operation reports its fault. -/
theorem whole_load (core : ArmcoreTlm) (target : Target) (fields : ReadFields)
    (hbus : OnBus core vmemaddr) (hwhole : ¬SplitLoad (vmemaddr.setWidth 64) width)
    {result : ReadResult}
    (hload : core.armisaRead1 target fields vmemaddr width linked = some result) :
    result.target = target.next ∧ result.success = !core.fault target.served ∧
      (core.fault target.served = false →
        result.fields.Gives target.mem (vmemaddr.setWidth 64) width) := by
  unfold ArmcoreTlm.armisaRead1 at hload
  dsimp only at hload
  rw [if_neg hbus.1, hbus.2] at hload
  generalize (vmemaddr.setWidth 64 : Word64) = a64 at *
  have hanswer : ∀ {answer : Option (BitVec width.bits)},
      answer.isSome = (!core.fault target.served) →
      (core.fault target.served = false → ∀ value ∈ answer,
        BytesAt target.mem a64 width.bytes value) →
      core.fault target.served = false → ∃ value, answer = some value ∧
        BytesAt target.mem a64 width.bytes value := by
    intro answer hsome hbytes hgranted
    rw [hgranted] at hsome
    obtain ⟨value, rfl⟩ := Option.isSome_iff_exists.mp hsome
    exact ⟨value, rfl, hbytes hgranted value rfl⟩
  cases width with
  | w8 =>
      obtain ⟨answer, hmem, hsome, hbytes⟩ := evalMem_spec core linked target (whole_byte a64)
      dsimp only at hload
      rw [hmem] at hload
      cases hload
      refine ⟨rfl, hsome, fun hgranted => ?_⟩
      obtain ⟨value, rfl, hvalue⟩ := hanswer hsome hbytes hgranted
      exact hvalue.littleEndian (by norm_num)
  | w16 =>
      rw [SplitLoad] at hwhole
      have heven : Whole .w16 a64 :=
        Or.inr ((low_eq_zero_iff a64 (k := 1) (by norm_num)).mp (not_not.mp hwhole))
      obtain ⟨answer, hmem, hsome, hbytes⟩ := evalMem_spec core linked target heven
      dsimp only at hload
      rw [if_neg hwhole, hmem] at hload
      cases hload
      refine ⟨rfl, hsome, fun hgranted => ?_⟩
      obtain ⟨value, rfl, hvalue⟩ := hanswer hsome hbytes hgranted
      exact hvalue.littleEndian (by norm_num)
  | w32 =>
      rw [SplitLoad] at hwhole
      have haligned : Whole .w32 a64 :=
        Or.inr ((low_eq_zero_iff a64 (k := 2) (by norm_num)).mp (not_not.mp hwhole))
      obtain ⟨answer, hmem, hsome, hbytes⟩ := evalMem_spec core linked target haligned
      dsimp only at hload
      rw [if_neg hwhole, hmem] at hload
      cases hload
      refine ⟨rfl, hsome, fun hgranted => ?_⟩
      obtain ⟨value, rfl, hvalue⟩ := hanswer hsome hbytes hgranted
      exact ⟨hvalue, BitVec.isLt _⟩
  | w64 =>
      have hwide : Whole .w64 a64 := Or.inl rfl
      obtain ⟨answer, hmem, hsome, hbytes⟩ := evalMem_spec core linked target hwide
      dsimp only at hload
      split at hload
      case isTrue hhigh =>
        split at hload
        case isTrue => cases hload
        case isFalse hlow => exact absurd ⟨hhigh, not_not.mp hlow⟩ hwhole
      case isFalse =>
        rw [hmem] at hload
        cases hload
        refine ⟨rfl, hsome, fun hgranted => ?_⟩
        obtain ⟨value, rfl, hvalue⟩ := hanswer hsome hbytes hgranted
        exact ⟨hvalue, BitVec.isLt _⟩

end Load

/-! ## Stores -/

/-- The memory with some bytes of a doubleword stored from an address on. -/
def stored (mem : LaneMemory) (addr : Word64) (count : ℕ) (wdata : Word64) : LaneMemory :=
  fun y => if (y - addr).toNat < count then wdata.extractLsb' (8 * (y - addr).toNat) 8 else mem y

theorem toNat_sub_add (y addr : Word64) (hn : n < 2 ^ 64) :
    (y - (addr + BitVec.ofNat 64 n)).toNat =
      if n ≤ (y - addr).toNat then (y - addr).toNat - n
      else 2 ^ 64 - n + (y - addr).toNat := by
  have hlt := (y - addr).isLt
  rw [← BitVec.sub_sub, BitVec.toNat_sub (y - addr), BitVec.toNat_ofNat, Nat.mod_eq_of_lt hn]
  split_ifs <;> omega

/-- Two stores one behind the other. -/
theorem stored_stored (mem : LaneMemory) (addr wdata : Word64) (hfit : n + m ≤ 8) :
    stored (stored mem addr n wdata) (addr + BitVec.ofNat 64 n) m (wdata >>> (8 * n)) =
      stored mem addr (n + m) wdata := by
  funext y
  simp only [stored]
  rw [toNat_sub_add y addr (by omega)]
  generalize (y - addr).toNat = d
  by_cases hbelow : n ≤ d
  · rw [if_pos hbelow, if_neg (Nat.not_lt.mpr hbelow)]
    have hcount : d - n < m ↔ d < n + m := by omega
    simp only [hcount]
    split
    · apply BitVec.eq_of_getLsbD_eq
      intro b hb
      have hoffset : 8 * n + (8 * (d - n) + b) = 8 * d + b := by omega
      simp [hb, hoffset]
    · rfl
  · rw [if_neg hbelow, if_neg (by omega), if_pos (by omega), if_pos (by omega)]

/-- The bytes of a store of some width. -/
theorem extract_setWidth (wdata : Word64) {d : ℕ} (hd : d < width.bytes) :
    (wdata.setWidth width.bits).extractLsb' (8 * d) 8 = wdata.extractLsb' (8 * d) 8 := by
  apply BitVec.eq_of_getLsbD_eq
  intro b hb
  have hinside : 8 * d + b < width.bits := by
    rw [Width.bits]
    omega
  rw [BitVec.getLsbD_extractLsb', BitVec.getLsbD_extractLsb', BitVec.getLsbD_setWidth,
    decide_eq_true hinside, Bool.true_and]

/-- What is stored is as it should be. -/
theorem stored_spec (mem : LaneMemory) (addr wdata : Word64) (width : Width) :
    Stored 0 mem (stored mem addr width.bytes wdata) width addr
      (wdata.setWidth width.bits) where
  frame x hx := by
    rw [Addressed] at hx
    rw [byteAt, byteAt, BitVec.xor_zero, stored, if_neg hx]
  bytes i hi := by
    have hoffset : (addr + BitVec.ofNat 64 i - addr).toNat = i := by
      have hle : width.bytes ≤ 8 := by cases width <;> norm_num
      rw [BitVec.add_comm, BitVec.add_sub_cancel, BitVec.toNat_ofNat,
        Nat.mod_eq_of_lt (by omega)]
    rw [byteAt, BitVec.xor_zero, stored, hoffset, if_pos hi, orderedByte, if_pos rfl,
      extract_setWidth wdata hi]

/-- The memory takes a store of one operation. -/
theorem store_stored (mem : LaneMemory) (wdata : Word64) (hwhole : Whole width addr) :
    mem.store (Bus.setMem 0 width addr (wdata.setWidth width.bits)) =
      stored mem addr width.bytes wdata := by
  by_cases hwide : width = .w64
  · subst hwide
    funext y
    rw [stored]
    by_cases hinside : (y - addr).toNat < 8
    · rw [if_pos hinside, ← BitVec.setWidth_eq wdata]
      exact if_pos ⟨hinside, rfl⟩
    · rw [if_neg hinside]
      exact if_neg fun h => hinside h.1
  · rw [store_setMem (Or.inl rfl) (hwhole.resolve_left hwide)]
    have hbus : busAddress 0 width addr = addr := by
      rw [busAddress, Nat.zero_and, BitVec.xor_zero]
    funext y
    rw [storedAt, stored, hbus]
    split
    case isTrue hinside => exact extract_setWidth wdata hinside
    case isFalse => rfl

/-- The target after a store. -/
def Target.wrote (target : Target) (mem : LaneMemory) : Target :=
  { mem := mem, served := target.served + 1 }

theorem setMem_refused (hfault : core.fault target.served = true) (width : Width)
    (addr : Word64) (value : BitVec width.bits) :
    core.setMem target width addr value = (target.next, false) := by
  simp only [ArmcoreTlm.setMem, ArmcoreTlm.socket, transport, hfault, if_true]
  rfl

theorem setMem_granted (hgranted : core.fault target.served = false) (wdata : Word64)
    (hwhole : Whole width addr) :
    core.setMem target width addr (wdata.setWidth _) =
      (target.wrote (stored target.mem addr width.bytes wdata), true) := by
  rw [← store_stored target.mem wdata hwhole]
  simp only [ArmcoreTlm.setMem, ArmcoreTlm.socket, transport, hgranted, Bool.false_eq_true,
    if_false]
  cases width <;> rfl

/-- A store of one operation. -/
theorem writeAligned_spec (core : ArmcoreTlm) (target : Target) (wdata : Word64)
    (hwhole : Whole width addr) :
    ∃ after, core.writeAligned target width addr wdata false =
        ⟨after, !core.fault target.served, none⟩ ∧
      after.served = target.served + 1 ∧
      (core.fault target.served = false →
        after.mem = stored target.mem addr width.bytes wdata) := by
  cases hfault : core.fault target.served with
  | true =>
      refine ⟨target.next, ?_, rfl, fun h => absurd h (by simp)⟩
      simp only [ArmcoreTlm.writeAligned, setMem_refused hfault, Bool.false_eq_true, if_false,
        Bool.not_true]
  | false =>
      refine ⟨target.wrote (stored target.mem addr width.bytes wdata), ?_, rfl, fun _ => rfl⟩
      simp only [ArmcoreTlm.writeAligned, setMem_granted hfault wdata hwhole,
        Bool.false_eq_true, if_false, Bool.not_false]

/-- No operation between two states was refused. -/
def Granted (core : ArmcoreTlm) (before after : Target) : Prop :=
  ∀ turn, before.served ≤ turn → turn < after.served → core.fault turn = false

/-- A store of bytes reports the fault of any of them. -/
theorem setBytes_spec (core : ArmcoreTlm) (wdata : Word64) (a64 : Word64) (count : ℕ) :
    ∀ start target, start + count ≤ 8 →
      (core.setBytes target a64 wdata (List.range' start count)).2 = true →
      Granted core target (core.setBytes target a64 wdata (List.range' start count)).1 ∧
      (core.setBytes target a64 wdata (List.range' start count)).1.mem =
        stored target.mem (a64 + BitVec.ofNat 64 start) count (wdata >>> (8 * start)) := by
  induction count with
  | zero =>
      intro start target _ _
      refine ⟨fun turn hle hlt => absurd hlt (Nat.not_lt.mpr hle), ?_⟩
      funext y
      simp [stored, ArmcoreTlm.setBytes]
  | succ count ih =>
      intro start target hfit hsuccess
      rw [List.range'_succ, ArmcoreTlm.setBytes] at hsuccess ⊢
      cases hfault : core.fault target.served with
      | true =>
          rw [setMem_refused hfault] at hsuccess
          cases hsuccess
      | false =>
          have hset := setMem_granted hfault (wdata >>> (8 * start))
            (whole_byte (a64 + BitVec.ofNat 64 start))
          change core.setMem target .w8 _ ((wdata >>> (8 * start)).setWidth 8) = _ at hset
          rw [hset] at hsuccess ⊢
          dsimp only at hsuccess ⊢
          rw [if_pos rfl] at hsuccess ⊢
          obtain ⟨hgranted, hmem⟩ := ih (start + 1) _ (by omega) hsuccess
          constructor
          · intro turn hle hlt
            rcases Nat.eq_or_lt_of_le hle with rfl | hlt'
            · exact hfault
            · exact hgranted turn hlt' hlt
          · rw [hmem]
            have hjoin := stored_stored target.mem (a64 + BitVec.ofNat 64 start)
              (wdata >>> (8 * start)) (n := 1) (m := count) (by omega)
            rw [Nat.add_comm 1 count] at hjoin
            rw [← hjoin, BitVec.ofNat_add, ← BitVec.add_assoc, ← BitVec.shiftRight_add,
              Nat.mul_succ]
            rfl

/-- The stores that become two operations whose success is not put together. -/
def SplitStore (a64 : Word64) (width : Width) : Prop :=
  width = .w64 ∧ a64 &&& 4 ≠ 0 ∧ a64 &&& 3 = 0

section Store

variable {vmemaddr : Word}

/-- The low half of a doubleword that is stored. -/
theorem stored_low (mem : LaneMemory) (addr wdata : Word64) :
    stored mem addr 4 (wdata <<< 32 >>> 32) = stored mem addr 4 wdata := by
  funext y
  rw [stored, stored]
  generalize (y - addr).toNat = d
  split
  case isTrue hinside =>
    apply BitVec.eq_of_getLsbD_eq
    intro b hb
    have hbelow : 32 + (8 * d + b) < 64 := by omega
    have habove : ¬32 + (8 * d + b) < 32 := by omega
    rw [BitVec.getLsbD_extractLsb', BitVec.getLsbD_extractLsb', BitVec.getLsbD_ushiftRight,
      BitVec.getLsbD_shiftLeft, decide_eq_true hbelow, decide_eq_false habove,
      Nat.add_sub_cancel_left, Bool.not_false, Bool.true_and, Bool.true_and]
  case isFalse => rfl

/-- A doubleword at an odd word reports the fault of its second half only. -/
theorem split_store (core : ArmcoreTlm) (target : Target)
    (hbus : core.backdoorWrite vmemaddr wdata = none)
    (hsplit : SplitStore (vmemaddr.setWidth 64) width) :
    ∃ after, core.armisaWrite1 target vmemaddr wdata width false =
        some ⟨after, !core.fault (target.served + 1), none⟩ ∧
      after.served = target.served + 2 ∧
      (core.fault target.served = false → core.fault (target.served + 1) = false →
        after.mem = stored target.mem (vmemaddr.setWidth 64) 8 wdata) := by
  have ha64 := toNat_a64 vmemaddr
  have hvmemaddr := vmemaddr.isLt
  obtain ⟨rfl, hhigh, hlow⟩ := hsplit
  unfold ArmcoreTlm.armisaWrite1
  dsimp only
  rw [hbus]
  generalize (vmemaddr.setWidth 64 : Word64) = a64 at *
  obtain ⟨hfirst, hsecond⟩ := whole_words hlow (by omega)
  obtain ⟨mid, hwrite1, hserved1, hmem1⟩ :=
    writeAligned_spec core target (wdata <<< 32 >>> 32) hfirst
  obtain ⟨after, hwrite2, hserved2, hmem2⟩ := writeAligned_spec core mid (wdata >>> 32) hsecond
  dsimp only
  rw [if_pos hhigh, if_neg (not_not.mpr hlow), hwrite1, hwrite2]
  rw [hserved1] at hserved2 hmem2 ⊢
  refine ⟨after, rfl, hserved2, fun hgranted1 hgranted2 => ?_⟩
  rw [hmem2 hgranted2, hmem1 hgranted1, stored_low]
  exact stored_stored target.mem a64 wdata (n := 4) (m := 4) le_rfl

/-- Every other store reports all of its faults, and has stored its bytes. -/
theorem whole_store (core : ArmcoreTlm) (target : Target)
    (hbus : core.backdoorWrite vmemaddr wdata = none)
    (hwhole : ¬SplitStore (vmemaddr.setWidth 64) width) {result : WriteResult}
    (hstore : core.armisaWrite1 target vmemaddr wdata width false = some result)
    (hsuccess : result.success = true) :
    Granted core target result.target ∧
      result.target.mem = stored target.mem (vmemaddr.setWidth 64) width.bytes wdata := by
  unfold ArmcoreTlm.armisaWrite1 at hstore
  dsimp only at hstore
  rw [hbus] at hstore
  generalize (vmemaddr.setWidth 64 : Word64) = a64 at *
  have haligned : Whole width a64 →
      core.writeAligned target width a64 wdata false = result →
      Granted core target result.target ∧
        result.target.mem = stored target.mem a64 width.bytes wdata := by
    rintro hone rfl
    obtain ⟨after, hwrite, hserved, hmem⟩ := writeAligned_spec core target wdata hone
    rw [hwrite] at hsuccess ⊢
    have hgranted : core.fault target.served = false := by
      simpa using hsuccess
    refine ⟨fun turn hle hlt => ?_, hmem hgranted⟩
    rw [hserved] at hlt
    obtain rfl : turn = target.served := by omega
    exact hgranted
  have hbytes : ∀ count, count ≤ 8 → core.writeSplit target a64 wdata count false =
      some result → Granted core target result.target ∧
        result.target.mem = stored target.mem a64 count wdata := by
    intro count hcount hwrite
    rw [ArmcoreTlm.writeSplit, if_neg Bool.false_ne_true, Option.some.injEq] at hwrite
    subst hwrite
    have hspec := setBytes_spec core wdata a64 count 0 target (by omega)
    rw [List.range_eq_range'] at hsuccess ⊢
    simpa using hspec hsuccess
  cases width with
  | w8 => exact haligned (whole_byte a64) (Option.some.inj hstore)
  | w16 =>
      dsimp only at hstore
      split at hstore
      case isTrue => exact hbytes 2 (by norm_num) hstore
      case isFalse heven =>
        apply haligned _ (Option.some.inj hstore)
        exact Or.inr ((low_eq_zero_iff a64 (k := 1) (by norm_num)).mp (not_not.mp heven))
  | w32 =>
      dsimp only at hstore
      split at hstore
      case isTrue => exact hbytes 4 (by norm_num) hstore
      case isFalse hzero =>
        apply haligned _ (Option.some.inj hstore)
        exact Or.inr ((low_eq_zero_iff a64 (k := 2) (by norm_num)).mp (not_not.mp hzero))
  | w64 =>
      dsimp only at hstore
      split at hstore
      case isTrue hhigh =>
        split at hstore
        case isTrue => cases hstore
        case isFalse hlow => exact absurd ⟨rfl, hhigh, not_not.mp hlow⟩ hwhole
      case isFalse => exact haligned (Or.inl rfl) (Option.some.inj hstore)

end Store

/-! ## All or an error -/

/-- A load or a store for data. -/
inductive Transfer where
  | load (fields : ReadFields) (vmemaddr : Word) (sizeCode : Width) (linkedf : Bool)
  | store (vmemaddr : Word) (wdata : Word64) (sizeCode : Width)

/-- An access of the bus that returns 1 has had none of its parts refused, and has moved the
bytes of its address. -/
def AllOrError (core : ArmcoreTlm) (target : Target) : Transfer → Prop
  | .load fields vmemaddr sizeCode linkedf =>
      OnBus core vmemaddr → ∀ result,
        core.armisaRead1 target fields vmemaddr sizeCode linkedf = some result →
        result.success = true → Granted core target result.target ∧
          result.fields.Gives target.mem (vmemaddr.setWidth 64) sizeCode
  | .store vmemaddr wdata sizeCode =>
      core.backdoorWrite vmemaddr wdata = none → ∀ result,
        core.armisaWrite1 target vmemaddr wdata sizeCode false = some result →
        result.success = true → Granted core target result.target ∧
          Stored 0 target.mem result.target.mem sizeCode (vmemaddr.setWidth 64)
            (wdata.setWidth sizeCode.bits)

/-- The access is one of two operations whose success is not put together. -/
def SplitInTwo (core : ArmcoreTlm) : Transfer → Prop
  | .load _ vmemaddr sizeCode _ =>
      OnBus core vmemaddr ∧ SplitLoad (vmemaddr.setWidth 64) sizeCode
  | .store vmemaddr wdata sizeCode =>
      core.backdoorWrite vmemaddr wdata = none ∧
        SplitStore (vmemaddr.setWidth 64) sizeCode

/-- An access is all or an error unless it is split in two and the memory refuses the first
part and grants the second one. -/
theorem allOrError_iff (core : ArmcoreTlm) (target : Target) (access : Transfer) :
    AllOrError core target access ↔
      (SplitInTwo core access → core.fault target.served = true →
        core.fault (target.served + 1) = true) := by
  cases access with
  | load fields vmemaddr sizeCode linkedf =>
      constructor
      · rintro hall ⟨hbus, hsplit⟩ hfault
        obtain ⟨after, hload, _⟩ := split_load linkedf core target fields hbus hsplit
        by_contra hgranted
        have hsuccess : (!core.fault (target.served + 1)) = true := by
          simpa using hgranted
        have hlt : target.served < target.next.next.served :=
          Nat.lt_add_of_pos_right (Nat.zero_lt_succ 1)
        have hnone := (hall hbus _ hload hsuccess).1 target.served le_rfl hlt
        rw [hfault] at hnone
        cases hnone
      · intro hmasked hbus result hload hsuccess
        by_cases hsplit : SplitLoad (vmemaddr.setWidth 64) sizeCode
        · obtain ⟨after, hload', hgives⟩ := split_load linkedf core target fields hbus hsplit
          obtain rfl := Option.some.inj (hload'.symm.trans hload)
          have hsecond : core.fault (target.served + 1) = false := by
            simpa using hsuccess
          have hfirst : core.fault target.served = false := by
            by_contra hfault
            rw [hmasked ⟨hbus, hsplit⟩ (Bool.not_eq_false _ ▸ hfault)] at hsecond
            cases hsecond
          refine ⟨fun turn hle hlt => ?_, hgives hfirst hsecond⟩
          have hturn : turn < target.served + 2 := hlt
          obtain rfl | rfl : turn = target.served ∨ turn = target.served + 1 := by omega
          · exact hfirst
          · exact hsecond
        · obtain ⟨htarget, hsame, hgives⟩ :=
            whole_load linkedf core target fields hbus hsplit hload
          rw [hsame] at hsuccess
          have hgranted : core.fault target.served = false := by
            simpa using hsuccess
          refine ⟨fun turn hle hlt => ?_, hgives hgranted⟩
          rw [htarget] at hlt
          have hturn : turn < target.served + 1 := hlt
          obtain rfl : turn = target.served := by omega
          exact hgranted
  | store vmemaddr wdata sizeCode =>
      constructor
      · rintro hall ⟨hbus, hsplit⟩ hfault
        obtain ⟨after, hstore, hserved, _⟩ := split_store core target hbus hsplit
        by_contra hgranted
        have hsuccess : (!core.fault (target.served + 1)) = true := by
          simpa using hgranted
        have hlt : target.served < after.served := by omega
        have hnone := (hall hbus _ hstore hsuccess).1 target.served le_rfl hlt
        rw [hfault] at hnone
        cases hnone
      · intro hmasked hbus result hstore hsuccess
        by_cases hsplit : SplitStore (vmemaddr.setWidth 64) sizeCode
        · obtain ⟨after, hstore', hserved, hmem⟩ := split_store core target hbus hsplit
          obtain rfl := Option.some.inj (hstore'.symm.trans hstore)
          have hsecond : core.fault (target.served + 1) = false := by
            simpa using hsuccess
          have hfirst : core.fault target.served = false := by
            by_contra hfault
            rw [hmasked ⟨hbus, hsplit⟩ (Bool.not_eq_false _ ▸ hfault)] at hsecond
            cases hsecond
          refine ⟨fun turn hle hlt => ?_, ?_⟩
          · rw [hserved] at hlt
            obtain rfl | rfl : turn = target.served ∨ turn = target.served + 1 := by omega
            · exact hfirst
            · exact hsecond
          · rw [hmem hfirst hsecond]
            obtain ⟨rfl, _⟩ := hsplit
            exact stored_spec target.mem _ wdata .w64
        · obtain ⟨hgranted, hmem⟩ := whole_store core target hbus hsplit hstore hsuccess
          rw [hmem]
          exact ⟨hgranted, stored_spec target.mem _ wdata sizeCode⟩

/-- A little-endian core at an empty memory that refuses its first transaction only. -/
def firstRefused : ArmcoreTlm where
  backdoors :=
    { stdin := fun _ => 0
      argv := fun _ => 0
      argc := 0
      ticks := 0
      speedoRead := fun _ => (0x1234DEAD, false)
      speedoWrite := fun _ _ => false }
  bigEndianDefined := true
  procID := 0
  insSizeCode := .w32
  left := 0
  fault := fun turn => turn = 0
  answer := fun _ => .ok

/-- A word and a doubleword across two pages, the first of which cannot be accessed. -/
theorem not_allOrError :
    ¬AllOrError firstRefused ⟨fun _ => 0, 0⟩ (.load ⟨0, 0⟩ 0x1FFE .w32 false) ∧
      ¬AllOrError firstRefused ⟨fun _ => 0, 0⟩ (.store 0x1FFC 0x1111111122222222 .w64) := by
  constructor
  · intro hall
    have hgranted := (hall ⟨by decide, by decide⟩ _ rfl rfl).1 0 le_rfl (by decide)
    exact absurd hgranted (by decide)
  · intro hall
    have hgranted := (hall (by decide) _ rfl rfl).1 0 le_rfl (by decide)
    exact absurd hgranted (by decide)

end Prazor.Arm.DataAccess
