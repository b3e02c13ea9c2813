import Prazor.Bus.CpuBusaccess

/-!
# A memory of byte lanes

A CPU numbers the bytes of a doubleword from either end: with `ENDIAN_FLIP = 7` its
byte `a` is in lane `7 - a`.  An aligned access reaches consecutive lanes for both
settings, and these hold the value with the least significant byte first.
-/

namespace Prazor.Bus

open Prazor.Tlm Prazor.Bytes

/-! ## A memory of lanes -/

/-- The bytes of a memory. -/
abbrev LaneMemory := Word64 → Byte

/-- The lane `i` of a transaction is enabled. -/
def laneEnabled (payload : Payload) (i : ℕ) : Bool :=
  match payload.byteEnable with
  | none => true
  | some enables => enables (i % payload.byteEnableLength) = 0xFF

/-- A write stores exactly the lanes that are enabled. -/
def LaneMemory.store (mem : LaneMemory) (payload : Payload) : LaneMemory := fun y =>
  let i := (y - payload.address).toNat
  if i < payload.dataLength ∧ laneEnabled payload i then payload.data i else mem y

/-- A memory that stores exactly the lanes that are enabled, and answers the writes of
store-conditional operations as it sees fit. -/
def LaneMemory.transport (answer : Payload → Response) (mem : LaneMemory) (payload : Payload) :
    LaneMemory × Payload :=
  match payload.command with
  | .read =>
      (mem, { payload with
        data := fun i =>
          if i < payload.dataLength then mem (payload.address + BitVec.ofNat 64 i)
          else payload.data i
        response := .ok })
  | .write =>
      let response := if payload.llsc.isSome then answer payload else .ok
      (if response = .ok then mem.store payload else mem, { payload with response := response })
  | .ignore => (mem, { payload with response := .ok })

variable {endianFlip : ℕ} {mem : LaneMemory} {width : Width} {addr x : Word64}
  {answer : Payload → Response}

/-- The memory as the CPU numbers its bytes. -/
def byteAt (endianFlip : ℕ) (mem : LaneMemory) (x : Word64) : Byte :=
  mem (x ^^^ BitVec.ofNat 64 endianFlip)

/-- The byte that a CPU keeps at offset `i` of a value. -/
def orderedByte (endianFlip : ℕ) (width : Width) (value : BitVec width.bits) (i : ℕ) : Byte :=
  value.extractLsb' (8 * if endianFlip = 0 then i else width.bytes - 1 - i) 8

/-- The byte is one of those of an access. -/
def Addressed (width : Width) (addr x : Word64) : Prop := (x - addr).toNat < width.bytes

/-! ## Addresses and lanes -/

section Addresses

theorem xor_lane {flip : ℕ} (hflip : flip < 8) (x : Word64) :
    (x ^^^ BitVec.ofNat 64 flip).toNat = 8 * (x.toNat / 8) + (x.toNat % 8 ^^^ flip) := by
  have hdiv : (x.toNat ^^^ flip) / 2 ^ 3 = x.toNat / 8 := by
    rw [Nat.xor_div_two_pow, Nat.div_eq_of_lt hflip, Nat.xor_zero]
  have hmod : (x.toNat ^^^ flip) % 2 ^ 3 = x.toNat % 8 ^^^ flip := by
    rw [Nat.xor_mod_two_pow, Nat.mod_eq_of_lt hflip]
  rw [BitVec.toNat_xor, BitVec.toNat_ofNat, Nat.mod_eq_of_lt (by omega), ← hmod, ← hdiv]
  omega

theorem and_lane {mask : ℕ} (hmask : mask < 8) (x : Word64) :
    (x &&& BitVec.ofNat 64 mask).toNat = x.toNat % 8 &&& mask := by
  have hmod : (x.toNat &&& mask) % 2 ^ 3 = x.toNat % 8 &&& mask := by
    rw [Nat.and_mod_two_pow, Nat.mod_eq_of_lt hmask]
  have hlow : x.toNat &&& mask < 2 ^ 3 := Nat.lt_of_le_of_lt Nat.and_le_right hmask
  rw [BitVec.toNat_and, BitVec.toNat_ofNat, Nat.mod_eq_of_lt (by omega), ← hmod,
    Nat.mod_eq_of_lt hlow]

theorem and_not_lane {mask : ℕ} (hmask : mask < 8) (x : Word64) :
    (x &&& ~~~(BitVec.ofNat 64 mask)).toNat = x.toNat - (x.toNat % 8 &&& mask) := by
  have hsum : (x &&& ~~~(BitVec.ofNat 64 mask)) + (x &&& BitVec.ofNat 64 mask) = x := by
    rw [BitVec.add_eq_or_of_and_eq_zero]
    · ext i hi
      simp
      cases x[i] <;> simp
    · ext i hi
      simp
      cases x[i] <;> simp
  have hle : (x &&& BitVec.ofNat 64 mask).toNat ≤ x.toNat := by
    rw [BitVec.toNat_and]
    exact Nat.and_le_left
  have hsub : x &&& ~~~(BitVec.ofNat 64 mask) = x - (x &&& BitVec.ofNat 64 mask) := by
    rw [eq_comm, BitVec.sub_eq_iff_eq_add]
    exact hsum.symm
  rw [hsub, BitVec.toNat_sub_of_le (BitVec.le_def.mpr hle), and_lane hmask]

/-- The address of the first lane of an aligned access. -/
def busAddress (endianFlip : ℕ) (width : Width) (addr : Word64) : Word64 :=
  addr ^^^ BitVec.ofNat 64 (endianFlip &&& (8 - width.bytes))

theorem toNat_busAddress (width : Width) (hflip : endianFlip = 0 ∨ endianFlip = 7)
    (haligned : width.bytes ∣ addr.toNat) :
    (busAddress endianFlip width addr).toNat = 8 * (addr.toNat / 8) +
      if endianFlip = 0 then addr.toNat % 8 else 8 - width.bytes - addr.toNat % 8 := by
  have hlow : endianFlip &&& (8 - width.bytes) < 8 := by
    rcases hflip with rfl | rfl
    · rw [Nat.zero_and]
      norm_num
    · exact Nat.lt_of_le_of_lt Nat.and_le_left (by norm_num)
  have hlane : width.bytes ∣ addr.toNat % 8 := by
    cases width <;> dsimp only [Width.bytes] at * <;> omega
  rw [busAddress, xor_lane hlow]
  congr 1
  have hlt : addr.toNat % 8 < 8 := Nat.mod_lt _ (by norm_num)
  generalize addr.toNat % 8 = a at *
  rcases hflip with rfl | rfl
  · simp
  · rw [if_neg (by norm_num)]
    cases width <;> dsimp only [Width.bytes] at * <;> interval_cases a <;> simp_all

theorem toNat_flip (hflip : endianFlip = 0 ∨ endianFlip = 7) (x : Word64) :
    (x ^^^ BitVec.ofNat 64 endianFlip).toNat = 8 * (x.toNat / 8) +
      if endianFlip = 0 then x.toNat % 8 else 7 - x.toNat % 8 := by
  have hlow : endianFlip < 8 := by omega
  rw [xor_lane hlow]
  congr 1
  have hlt : x.toNat % 8 < 8 := Nat.mod_lt _ (by norm_num)
  generalize x.toNat % 8 = a at *
  rcases hflip with rfl | rfl
  · simp
  · rw [if_neg (by norm_num)]
    interval_cases a <;> rfl

/-- The lanes of an aligned access are those of its bytes. -/
theorem addressed_iff (hflip : endianFlip = 0 ∨ endianFlip = 7)
    (haligned : width.bytes ∣ addr.toNat) (x : Word64) :
    Addressed width addr x ↔
      ((x ^^^ BitVec.ofNat 64 endianFlip) - busAddress endianFlip width addr).toNat <
        width.bytes := by
  have hbus := toNat_busAddress width hflip haligned
  have hx := toNat_flip hflip x
  have hx' := x.isLt
  have haddr := addr.isLt
  rw [Addressed, BitVec.toNat_sub, BitVec.toNat_sub, hbus, hx]
  rcases hflip with rfl | rfl
  · cases width <;> dsimp only [Width.bytes] at * <;> simp only [if_true] <;> omega
  · simp only [if_neg (by norm_num : ¬(7 = 0))]
    cases width <;> dsimp only [Width.bytes] at * <;> omega

/-- The lane of one byte of an aligned access. -/
theorem lane_of_byte (hflip : endianFlip = 0 ∨ endianFlip = 7)
    (haligned : width.bytes ∣ addr.toNat) {i : ℕ} (hi : i < width.bytes) :
    (addr + BitVec.ofNat 64 i) ^^^ BitVec.ofNat 64 endianFlip =
      busAddress endianFlip width addr +
        BitVec.ofNat 64 (if endianFlip = 0 then i else width.bytes - 1 - i) := by
  have hbus := toNat_busAddress width hflip haligned
  have haddr := addr.isLt
  have hbytes : width.bytes ≤ 8 := by cases width <;> norm_num
  apply BitVec.eq_of_toNat_eq
  rw [toNat_flip hflip, BitVec.toNat_add, BitVec.toNat_add, hbus, BitVec.toNat_ofNat,
    BitVec.toNat_ofNat]
  rcases hflip with rfl | rfl
  · cases width <;> dsimp only [Width.bytes] at * <;> simp only [if_true] <;> omega
  · simp only [if_neg (by norm_num : ¬(7 = 0))]
    cases width <;> dsimp only [Width.bytes] at * <;> omega

end Addresses

/-! ## Stores -/

/-- The first lane of an aligned access. -/
def firstLane (endianFlip : ℕ) (width : Width) (addr : Word64) : ℕ :=
  if endianFlip = 0 then addr.toNat % 8 else 8 - width.bytes - addr.toNat % 8

/-- The memory with a value at consecutive addresses, its least significant byte first. -/
def storedAt (mem : LaneMemory) (bus : Word64) (width : Width) (value : BitVec width.bits) :
    LaneMemory := fun y =>
  if (y - bus).toNat < width.bytes then value.extractLsb' (8 * (y - bus).toNat) 8 else mem y

/-- A write whose lanes are those of an aligned access stores the value there. -/
theorem store_eq_storedAt {payload : Payload} {value : BitVec width.bits}
    (hflip : endianFlip = 0 ∨ endianFlip = 7) (haligned : width.bytes ∣ addr.toNat)
    (haddress : payload.address.toNat = 8 * (addr.toNat / 8)) (hlength : payload.dataLength = 8)
    (hlanes : ∀ l < 8, laneEnabled payload l ↔ firstLane endianFlip width addr ≤ l ∧
      l < firstLane endianFlip width addr + width.bytes)
    (hdata : ∀ o < width.bytes, payload.data (firstLane endianFlip width addr + o) =
      value.extractLsb' (8 * o) 8) :
    mem.store payload = storedAt mem (busAddress endianFlip width addr) width value := by
  have hbus := toNat_busAddress width hflip haligned
  have haddr := addr.isLt
  have hfirst : firstLane endianFlip width addr + width.bytes ≤ 8 := by
    rw [firstLane]
    rcases hflip with rfl | rfl
    · rw [if_pos rfl]
      cases width <;> dsimp only [Width.bytes] at * <;> omega
    · rw [if_neg (by norm_num)]
      cases width <;> dsimp only [Width.bytes] at * <;> omega
  rw [← firstLane] at hbus
  funext y
  have hy := y.isLt
  simp only [LaneMemory.store, storedAt, hlength]
  by_cases hinside : (y - busAddress endianFlip width addr).toNat < width.bytes
  · have hlane : (y - payload.address).toNat = firstLane endianFlip width addr +
        (y - busAddress endianFlip width addr).toNat := by
      rw [BitVec.toNat_sub, hbus] at hinside
      rw [BitVec.toNat_sub, BitVec.toNat_sub, hbus, haddress]
      omega
    have henabled : laneEnabled payload (y - payload.address).toNat := by
      rw [hlanes _ (by omega)]
      omega
    rw [if_pos ⟨by omega, henabled⟩, if_pos hinside, hlane, hdata _ hinside]
  · rw [if_neg hinside, if_neg]
    rintro ⟨hlt, henabled⟩
    rw [hlanes _ hlt] at henabled
    refine hinside ?_
    rw [BitVec.toNat_sub, haddress] at hlt henabled
    rw [BitVec.toNat_sub, hbus]
    omega

theorem laneEnabled_memWrite (hflip : endianFlip = 0 ∨ endianFlip = 7) {l : ℕ} (hl : l < 8)
    (memaddr : Word64) (mask : BitVec 8) (wdata : Word64) :
    laneEnabled (memWrite endianFlip memaddr mask wdata) l =
      (decide (mask = 0) || mask.getLsbD (l ^^^ endianFlip)) := by
  unfold laneEnabled memWrite
  by_cases hmask : mask = 0
  · simp [hmask]
  · simp only [hmask, if_false, decide_false, Bool.false_or, Nat.mod_eq_of_lt hl]
    have hfill : laneEnables endianFlip mask l =
        if mask.getLsbD (l ^^^ endianFlip) then 0xFF else 0x00 := by
      rcases hflip with rfl | rfl <;> interval_cases l <;>
        simp [laneEnables, List.range_succ]
    rw [hfill]
    cases mask.getLsbD (l ^^^ endianFlip) <;> rfl

section Replicated

/-- The value in all the pieces of a doubleword. -/
def replicated : (width : Width) → BitVec width.bits → Word64
  | .w8, value =>
      let wd := value.setWidth 64 <<< 8 ||| value.setWidth 64
      let wd := wd ||| wd <<< 16
      wd ||| wd <<< 32
  | .w16, value =>
      let wd := value.setWidth 64 <<< 16 ||| value.setWidth 64
      wd ||| wd <<< 32
  | .w32, value => value.setWidth 64 <<< 32 ||| value.setWidth 64
  | .w64, value => value

/-- Doubling a value that has its low bits only repeats these. -/
theorem getLsbD_doubled {x : Word64} {s : ℕ} (hs : 0 < s)
    (hlow : ∀ j, s ≤ j → x.getLsbD j = false) :
    (∀ j < 64, j < 2 * s → (x ||| x <<< s).getLsbD j = x.getLsbD (j % s)) ∧
      ∀ j, 2 * s ≤ j → (x ||| x <<< s).getLsbD j = false := by
  refine ⟨fun j hj hlt => ?_, fun j hle => ?_⟩
  · rw [BitVec.getLsbD_or, BitVec.getLsbD_shiftLeft]
    rcases Nat.lt_or_ge j s with hbelow | habove
    · simp [hbelow, Nat.mod_eq_of_lt hbelow]
    · have hmod : j % s = j - s := by
        rw [Nat.mod_eq_sub_mod habove, Nat.mod_eq_of_lt (by omega)]
      rw [hlow j habove, hmod, Bool.false_or, decide_eq_true hj,
        decide_eq_false (Nat.not_lt.mpr habove)]
      rfl
  · rw [BitVec.getLsbD_or, BitVec.getLsbD_shiftLeft, hlow j (by omega), hlow (j - s) (by omega),
      Bool.and_false, Bool.or_false]

theorem getLsbD_replicated (value : BitVec width.bits) {j : ℕ} (hj : j < 64) :
    (replicated width value).getLsbD j = value.getLsbD (j % width.bits) := by
  have hlow : ∀ k, ∀ v : BitVec k, k ≤ 64 →
      (∀ j, k ≤ j → (v.setWidth 64).getLsbD j = false) ∧
        ∀ j < k, (v.setWidth 64).getLsbD j = v.getLsbD j := by
    intro k v hk
    refine ⟨fun j hle => ?_, fun j hlt => ?_⟩
    · rw [BitVec.getLsbD_setWidth, BitVec.getLsbD_of_ge v j hle, Bool.and_false]
    · rw [BitVec.getLsbD_setWidth, decide_eq_true (by omega), Bool.true_and]
  cases width with
  | w8 =>
      have hfirst := getLsbD_doubled (by norm_num) (hlow 8 value (by norm_num)).1
      have hsecond := getLsbD_doubled (by norm_num) hfirst.2
      have hthird := getLsbD_doubled (by norm_num) hsecond.2
      simp only [replicated, BitVec.or_comm (value.setWidth 64 <<< 8)]
      rw [hthird.1 j hj (by omega), hsecond.1 _ (by omega) (by omega),
        hfirst.1 _ (by omega) (by omega), (hlow 8 value (by norm_num)).2 _ (by omega)]
      congr 1
      dsimp only [Width.bits, Width.bytes]
      omega
  | w16 =>
      have hfirst := getLsbD_doubled (by norm_num) (hlow 16 value (by norm_num)).1
      have hsecond := getLsbD_doubled (by norm_num) hfirst.2
      simp only [replicated, BitVec.or_comm (value.setWidth 64 <<< 16)]
      rw [hsecond.1 j hj (by omega), hfirst.1 _ (by omega) (by omega),
        (hlow 16 value (by norm_num)).2 _ (by omega)]
      congr 1
      dsimp only [Width.bits, Width.bytes]
      omega
  | w32 =>
      have hfirst := getLsbD_doubled (by norm_num) (hlow 32 value (by norm_num)).1
      simp only [replicated, BitVec.or_comm (value.setWidth 64 <<< 32)]
      rw [hfirst.1 j hj (by omega), (hlow 32 value (by norm_num)).2 _ (by omega)]
      rfl
  | w64 => exact congrArg value.getLsbD (Nat.mod_eq_of_lt hj).symm

/-- Each piece of a doubleword has the bytes of the value. -/
theorem bytes64_replicated {l : ℕ} (hl : l < 8) (value : BitVec width.bits) :
    bytes64 (replicated width value) l = value.extractLsb' (8 * (l % width.bytes)) 8 := by
  apply BitVec.eq_of_getLsbD_eq
  intro i hi
  rw [bytes64, BitVec.getLsbD_extractLsb', BitVec.getLsbD_extractLsb',
    getLsbD_replicated value (by omega)]
  congr 2
  cases width <;> dsimp only [Width.bits, Width.bytes] <;> omega

end Replicated

/-- The mask of the lanes of a piece, shifted to the first piece. -/
def laneMask : Width → BitVec 8
  | .w8 => 1
  | .w16 => 3
  | .w32 => 15
  | .w64 => 0

/-- `set_mem8` to `set_mem64`. -/
def setMem (endianFlip : ℕ) : (width : Width) → Word64 → BitVec width.bits → Payload
  | .w8, memaddr, wdata => setMem8 endianFlip memaddr wdata
  | .w16, memaddr, wdata => setMem16 endianFlip memaddr wdata
  | .w32, memaddr, wdata => setMem32 endianFlip memaddr wdata
  | .w64, memaddr, wdata => setMem64 endianFlip memaddr wdata

/-- The four stores differ in the mask and in the value that they replicate. -/
theorem setMem_eq (endianFlip : ℕ) (addr : Word64) (value : BitVec width.bits) :
    setMem endianFlip width addr value =
      memWrite endianFlip (addr &&& ~~~(BitVec.ofNat 64 (8 - width.bytes)))
        (laneMask width <<< (addr &&& BitVec.ofNat 64 (8 - width.bytes)).toNat)
        (replicated width value) := by
  cases width with
  | w64 =>
      have hall : addr &&& ~~~(BitVec.ofNat 64 (8 - 8)) = addr := BitVec.and_allOnes
      rw [setMem, setMem64, hall, replicated]
      exact congrArg (memWrite endianFlip addr · value) (BitVec.zero_shiftLeft _).symm
  | _ => rfl

theorem laneMask_lanes (hflip : endianFlip = 0 ∨ endianFlip = 7) (width : Width) :
    ∀ a < 8, width.bytes ∣ a → ∀ l < 8,
      ((decide (laneMask width <<< (a &&& (8 - width.bytes)) = 0) ||
          (laneMask width <<< (a &&& (8 - width.bytes))).getLsbD (l ^^^ endianFlip)) = true ↔
        (if endianFlip = 0 then a else 8 - width.bytes - a) ≤ l ∧
          l < (if endianFlip = 0 then a else 8 - width.bytes - a) + width.bytes) := by
  rcases hflip with rfl | rfl <;> cases width <;> decide

theorem aligned_lane (haligned : width.bytes ∣ addr.toNat) : width.bytes ∣ addr.toNat % 8 := by
  cases width <;> dsimp only [Width.bytes] at * <;> omega

theorem firstLane_mod (hflip : endianFlip = 0 ∨ endianFlip = 7)
    (haligned : width.bytes ∣ addr.toNat) {o : ℕ} (ho : o < width.bytes) :
    firstLane endianFlip width addr + o < 8 ∧
      (firstLane endianFlip width addr + o) % width.bytes = o := by
  unfold firstLane
  rcases hflip with rfl | rfl
  · simp only [if_true]
    cases width <;> dsimp only [Width.bytes] at * <;> omega
  · rw [if_neg (by norm_num)]
    cases width <;> dsimp only [Width.bytes] at * <;> omega

/-- A store puts the value at the first lane of the access. -/
theorem store_setMem (hflip : endianFlip = 0 ∨ endianFlip = 7)
    (haligned : width.bytes ∣ addr.toNat) (value : BitVec width.bits) :
    mem.store (setMem endianFlip width addr value) =
      storedAt mem (busAddress endianFlip width addr) width value := by
  have hmask : 8 - width.bytes < 8 := by cases width <;> norm_num
  rw [setMem_eq]
  refine store_eq_storedAt hflip haligned ?_ rfl (fun l hl => ?_) fun o ho => ?_
  · have hlane : addr.toNat % 8 &&& (8 - width.bytes) = addr.toNat % 8 := by
      have hlow : addr.toNat % 8 < 8 := Nat.mod_lt _ (by norm_num)
      have haligned' := aligned_lane haligned
      generalize addr.toNat % 8 = a at *
      cases width <;> dsimp only [Width.bytes] at * <;> interval_cases a <;> simp_all
    change (addr &&& ~~~(BitVec.ofNat 64 (8 - width.bytes))).toNat = _
    rw [and_not_lane hmask, hlane]
    omega
  · rw [laneEnabled_memWrite hflip hl, and_lane hmask]
    exact laneMask_lanes hflip width _ (Nat.mod_lt _ (by norm_num)) (aligned_lane haligned) l hl
  · obtain ⟨hl, hmod⟩ := firstLane_mod hflip haligned ho
    change bytes64 _ _ = _
    rw [bytes64_replicated hl, hmod]

end Prazor.Bus
