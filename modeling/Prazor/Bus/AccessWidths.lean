import Prazor.Bus.LaneMemory

/-!
# Accesses of all widths

Loads take a piece of a doubleword, and give back what the stores of the same width
have put there.  A 16-bit store-conditional operation stores a whole word, and a
16-bit load from the last byte of a doubleword takes its halves from the lanes that
one of the two settings has them in.
-/

namespace Prazor.Bus

open Prazor.Tlm Prazor.Bytes

variable {endianFlip : ℕ} {mem : LaneMemory} {width : Width} {addr x : Word64}
  {answer : Payload → Response}

/-! ## Loads -/

/-- `eval_mem8` to `eval_mem64`. -/
def evalMem {Target : Type*} (bigEndianDefined : Bool) (endianFlip : ℕ)
    (socket : Target → Payload → Target × Payload) (target : Target) :
    (width : Width) → Word64 → Word64 → Target × Option (BitVec width.bits)
  | .w8, memaddr, stale => evalMem8 endianFlip socket target memaddr stale
  | .w16, memaddr, stale => evalMem16 bigEndianDefined endianFlip socket target memaddr stale
  | .w32, memaddr, stale => evalMem32 endianFlip socket target memaddr stale
  | .w64, memaddr, stale => evalMem64 socket target memaddr stale

/-- A value is given by its bytes. -/
theorem ext_bytes {left right : BitVec width.bits}
    (hbytes : ∀ o < width.bytes, left.extractLsb' (8 * o) 8 = right.extractLsb' (8 * o) 8) :
    left = right := by
  apply BitVec.eq_of_getLsbD_eq
  intro j hj
  have hin : j / 8 < width.bytes := by
    rw [Width.bits] at hj
    omega
  have hbyte := congrArg (fun byte => byte.getLsbD (j % 8)) (hbytes (j / 8) hin)
  simp only [BitVec.getLsbD_extractLsb', Nat.mod_lt j (by norm_num : 8 > 0), decide_true,
    Bool.true_and, Nat.div_add_mod] at hbyte
  exact hbyte

/-- Each byte of a read is one of the memory. -/
theorem loadThrough_lane (answer : Payload → Response) (mem : LaneMemory)
    (memaddr stale : Word64) (not64 : ℕ) :
    ∃ rdata, loadThrough (LaneMemory.transport answer) mem memaddr not64 stale =
        (mem, some rdata) ∧
      ∀ l < 8, (not64 = 3 ∨ l < 4) → bytes64 rdata l = mem (memaddr + BitVec.ofNat 64 l) := by
  refine ⟨_, rfl, fun l hl hread => ?_⟩
  dsimp only [LaneMemory.transport, memRead]
  rw [bytes64_load64 _ hl, if_pos]
  split_ifs <;> omega

/-- The bytes of a piece of a doubleword. -/
theorem extract_shifted (rdata : Word64) (n k : ℕ) {o : ℕ} (ho : 8 * o + 8 ≤ n) :
    ((rdata >>> (8 * k)).setWidth n).extractLsb' (8 * o) 8 = bytes64 rdata (k + o) := by
  apply BitVec.eq_of_getLsbD_eq
  intro i hi
  rw [bytes64, BitVec.getLsbD_extractLsb', BitVec.getLsbD_setWidth, BitVec.getLsbD_ushiftRight,
    BitVec.getLsbD_extractLsb', decide_eq_true (by omega : 8 * o + i < n), Bool.true_and]
  congr 2
  omega

/-- A 32-bit load is one of the reads, and takes a half of it. -/
theorem evalMem32_eq (memaddr stale : Word64) :
    evalMem32 endianFlip (LaneMemory.transport answer) mem memaddr stale =
      if uncachedAddressSpace64 memaddr then
        ((loadThrough (LaneMemory.transport answer) mem
            ((memaddr &&& ~~~3) ^^^ BitVec.ofNat 64 (endianFlip &&& 4)) 2 stale).1,
          (loadThrough (LaneMemory.transport answer) mem
            ((memaddr &&& ~~~3) ^^^ BitVec.ofNat 64 (endianFlip &&& 4)) 2 stale).2.map
            fun rdata => rdata.setWidth 32)
      else
        ((loadThrough (LaneMemory.transport answer) mem (memaddr &&& ~~~7) 3 stale).1,
          (loadThrough (LaneMemory.transport answer) mem (memaddr &&& ~~~7) 3 stale).2.map
            fun (rdata : Word64) => (rdata >>>
              (8 * ((BitVec.ofNat 64 endianFlip ^^^ memaddr) &&& 4).toNat)).setWidth 32) := by
  rfl

/-- A load that takes a piece of a doubleword has the bytes of its lanes. -/
theorem bytes_of_piece {base rdata : Word64} {k : ℕ} (hflip : endianFlip = 0 ∨ endianFlip = 7)
    (haligned : width.bytes ∣ addr.toNat) (hbase : base.toNat = 8 * (addr.toNat / 8))
    (hbytes : ∀ l < 8, bytes64 rdata l = mem (base + BitVec.ofNat 64 l))
    (hk : k = firstLane endianFlip width addr) {o : ℕ} (ho : o < width.bytes) :
    ((rdata >>> (8 * k)).setWidth width.bits).extractLsb' (8 * o) 8 =
      mem (busAddress endianFlip width addr + BitVec.ofNat 64 o) := by
  have hbus := toNat_busAddress width hflip haligned
  have hlane := (firstLane_mod hflip haligned ho).1
  have haddr := addr.isLt
  rw [← firstLane] at hbus
  rw [extract_shifted rdata _ k (by rw [Width.bits]; omega), hk, hbytes _ hlane]
  congr 1
  apply BitVec.eq_of_toNat_eq
  rw [BitVec.toNat_add, BitVec.toNat_add, BitVec.toNat_ofNat, BitVec.toNat_ofNat, hbase, hbus]
  omega

theorem toNat_doubleword (addr : Word64) : (addr &&& ~~~7).toNat = 8 * (addr.toNat / 8) := by
  have hmask := and_not_lane (by norm_num : 7 < 8) addr
  have hlow : addr.toNat % 8 &&& 7 = addr.toNat % 8 := by
    rw [show 7 = 2 ^ 3 - 1 by rfl, Nat.and_two_pow_sub_one_eq_mod, Nat.mod_mod]
  rw [hlow] at hmask
  calc
    (addr &&& ~~~7).toNat = addr.toNat - addr.toNat % 8 := hmask
    _ = 8 * (addr.toNat / 8) := by omega

/-- A mask of the flipped address selects from the flipped lane. -/
theorem flipped_and {mask : ℕ} (hflip : endianFlip = 0 ∨ endianFlip = 7) (hmask : mask < 8)
    (addr : Word64) :
    ((BitVec.ofNat 64 endianFlip ^^^ addr) &&& BitVec.ofNat 64 mask).toNat =
      (if endianFlip = 0 then addr.toNat % 8 else 7 - addr.toNat % 8) &&& mask := by
  have hlane : (addr ^^^ BitVec.ofNat 64 endianFlip).toNat % 8 =
      if endianFlip = 0 then addr.toNat % 8 else 7 - addr.toNat % 8 := by
    rw [toNat_flip hflip]
    split_ifs <;> omega
  rw [and_lane hmask, BitVec.xor_comm, hlane]

/-- The word that an access is in. -/
def wordOf (addr : Word64) : Word64 := addr &&& ~~~3

theorem toNat_wordOf (addr : Word64) : (wordOf addr).toNat = addr.toNat - addr.toNat % 4 := by
  have hmask := and_not_lane (by norm_num : 3 < 8) addr
  have hlow : addr.toNat % 8 &&& 3 = addr.toNat % 4 := by
    rw [show 3 = 2 ^ 2 - 1 by rfl, Nat.and_two_pow_sub_one_eq_mod]
    omega
  rw [hlow] at hmask
  exact hmask

/-- The word of an uncached access. -/
theorem toNat_uncachedWord (hflip : endianFlip = 0 ∨ endianFlip = 7) (addr : Word64) :
    ((addr &&& ~~~3) ^^^ BitVec.ofNat 64 (endianFlip &&& 4)).toNat =
      8 * (addr.toNat / 8) +
        4 * if endianFlip = 0 then addr.toNat % 8 / 4 else 1 - addr.toNat % 8 / 4 := by
  have hword := toNat_wordOf addr
  rw [wordOf] at hword
  have hlt : addr.toNat % 8 / 4 < 2 := by omega
  have hdiv : (addr.toNat - addr.toNat % 4) / 8 = addr.toNat / 8 := by omega
  have hmod : (addr.toNat - addr.toNat % 4) % 8 = 4 * (addr.toNat % 8 / 4) := by omega
  rcases hflip with rfl | rfl
  · rw [xor_lane (by norm_num), hword, hdiv, hmod, if_pos rfl, Nat.zero_and, Nat.xor_zero]
  · rw [xor_lane (by decide), hword, hdiv, hmod, if_neg (by norm_num)]
    congr 1
    generalize addr.toNat % 8 / 4 = half at *
    interval_cases half <;> rfl

/-- A load leaves the memory and gives the bytes that are at the lanes of an access. -/
def LoadsLanes (endianFlip : ℕ) (mem : LaneMemory) (width : Width) (addr : Word64)
    (result : LaneMemory × Option (BitVec width.bits)) : Prop :=
  ∃ v, result = (mem, some v) ∧ ∀ o < width.bytes,
    v.extractLsb' (8 * o) 8 = mem (busAddress endianFlip width addr + BitVec.ofNat 64 o)

/-- A load of a doubleword that takes the piece of an access. -/
theorem loadsLanes_of_piece (hflip : endianFlip = 0 ∨ endianFlip = 7)
    (haligned : width.bytes ∣ addr.toNat) {stale : Word64} {k : ℕ}
    (hk : k = firstLane endianFlip width addr) :
    LoadsLanes endianFlip mem width addr
      ((loadThrough (LaneMemory.transport answer) mem (addr &&& ~~~7) 3 stale).1,
        (loadThrough (LaneMemory.transport answer) mem (addr &&& ~~~7) 3 stale).2.map
          fun (rdata : Word64) => (rdata >>> (8 * k)).setWidth width.bits) := by
  obtain ⟨rdata, hload, hbytes⟩ := loadThrough_lane answer mem (addr &&& ~~~7) stale 3
  rw [hload]
  refine ⟨_, rfl, fun o ho => ?_⟩
  exact bytes_of_piece hflip haligned (toNat_doubleword addr)
    (fun l hl => hbytes l hl (.inl rfl)) hk ho

/-- A load of the word of an uncached access that takes a piece of it. -/
theorem loadsLanes_of_uncached (hflip : endianFlip = 0 ∨ endianFlip = 7)
    (haligned : width.bytes ∣ addr.toNat) {stale : Word64} {k : ℕ}
    (hword : k + width.bytes ≤ 4) (hk : k = firstLane endianFlip width addr % 4) :
    LoadsLanes endianFlip mem width addr
      ((loadThrough (LaneMemory.transport answer) mem
          ((addr &&& ~~~3) ^^^ BitVec.ofNat 64 (endianFlip &&& 4)) 2 stale).1,
        (loadThrough (LaneMemory.transport answer) mem
          ((addr &&& ~~~3) ^^^ BitVec.ofNat 64 (endianFlip &&& 4)) 2 stale).2.map
          fun (rdata : Word64) => (rdata >>> (8 * k)).setWidth width.bits) := by
  have hbus := toNat_busAddress width hflip haligned
  have haddr := addr.isLt
  obtain ⟨rdata, hload, hlanes⟩ := loadThrough_lane answer mem
    ((addr &&& ~~~3) ^^^ BitVec.ofNat 64 (endianFlip &&& 4)) stale 2
  rw [hload]
  refine ⟨_, rfl, fun o ho => ?_⟩
  rw [extract_shifted _ _ _ (by rw [Width.bits]; omega), hlanes _ (by omega) (.inr (by omega))]
  congr 1
  apply BitVec.eq_of_toNat_eq
  rw [BitVec.toNat_add, BitVec.toNat_add, BitVec.toNat_ofNat, BitVec.toNat_ofNat,
    toNat_uncachedWord hflip, hbus, hk, firstLane]
  cases width <;> dsimp only [Width.bytes] at * <;> split_ifs <;> omega

theorem evalMem8_lanes (hflip : endianFlip = 0 ∨ endianFlip = 7) (stale : Word64) :
    LoadsLanes endianFlip mem .w8 addr
      (evalMem8 endianFlip (LaneMemory.transport answer) mem addr stale) := by
  have haligned : Width.w8.bytes ∣ addr.toNat := one_dvd _
  rw [evalMem8]
  dsimp only
  split_ifs
  · have hand := flipped_and hflip (by norm_num : 3 < 8) addr
    rw [show 3 = 2 ^ 2 - 1 by rfl, Nat.and_two_pow_sub_one_eq_mod] at hand
    refine loadsLanes_of_uncached hflip haligned ?_ ?_
    · have hlow : ((BitVec.ofNat 64 endianFlip ^^^ addr) &&& 3).toNat < 4 :=
        hand.trans_lt (Nat.mod_lt _ (by norm_num))
      dsimp only [Width.bytes]
      omega
    · exact hand
  · have hand := flipped_and hflip (by norm_num : 7 < 8) addr
    rw [show 7 = 2 ^ 3 - 1 by rfl, Nat.and_two_pow_sub_one_eq_mod] at hand
    refine loadsLanes_of_piece hflip haligned (hand.trans ?_)
    rw [firstLane]
    dsimp only [Width.bytes]
    split_ifs <;> omega

theorem evalMem32_lanes (hflip : endianFlip = 0 ∨ endianFlip = 7)
    (haligned : Width.w32.bytes ∣ addr.toNat) (stale : Word64) :
    LoadsLanes endianFlip mem .w32 addr
      (evalMem32 endianFlip (LaneMemory.transport answer) mem addr stale) := by
  rw [evalMem32_eq]
  split_ifs
  · refine loadsLanes_of_uncached hflip haligned (k := 0) ?_ ?_
    · exact le_refl _
    · rw [firstLane]
      dsimp only [Width.bytes] at *
      split_ifs <;> omega
  · refine loadsLanes_of_piece hflip haligned ?_
    refine (flipped_and hflip (by norm_num : 4 < 8) addr).trans ?_
    rw [firstLane]
    have hlow : addr.toNat % 8 < 8 := Nat.mod_lt _ (by norm_num)
    have haligned' := aligned_lane haligned
    generalize addr.toNat % 8 = a at *
    dsimp only [Width.bytes] at *
    rcases hflip with rfl | rfl <;> interval_cases a <;> simp_all

/-! ## Short loads -/

/-- A load crosses into the next doubleword from the last byte only. -/
theorem split_iff (addr : Word64) : (addr &&& ~~~7) + 8 - addr = 1 ↔ addr.toNat % 8 = 7 := by
  have hbase := toNat_doubleword addr
  have haddr := addr.isLt
  have height : (8 : Word64).toNat = 8 := rfl
  have hone : (1 : Word64).toNat = 1 := rfl
  rw [← BitVec.toNat_inj, BitVec.toNat_sub, BitVec.toNat_add, hbase, height, hone]
  omega

/-- The shift of a 16-bit load. -/
theorem toNat_shift (hflip : endianFlip = 0 ∨ endianFlip = 7) (hinside : addr.toNat % 8 < 7) :
    ((((addr ^^^ ~~~(BitVec.ofNat 64 endianFlip)) &&& 7) -
        (~~~(BitVec.ofNat 64 endianFlip) &&& 1)) * 8).toNat =
      8 * if endianFlip = 0 then 6 - addr.toNat % 8 else addr.toNat % 8 := by
  have hlow : (addr &&& 7).toNat = addr.toNat % 8 := by
    have hand := and_lane (by norm_num : 7 < 8) addr
    rw [show 7 = 2 ^ 3 - 1 by rfl, Nat.and_two_pow_sub_one_eq_mod, Nat.mod_mod] at hand
    exact hand
  have hxor : ∀ c : Word64, (addr ^^^ c) &&& 7 = (addr &&& 7) ^^^ (c &&& 7) := by
    intro c
    ext i hi
    simp only [BitVec.getElem_and, BitVec.getElem_xor]
    exact Bool.and_xor_distrib_right _ _ _
  rw [hxor]
  have hword : addr &&& 7 = BitVec.ofNat 64 (addr.toNat % 8) := by
    rw [← hlow, BitVec.ofNat_toNat, BitVec.setWidth_eq]
  rw [hword]
  generalize addr.toNat % 8 = a at *
  rcases hflip with rfl | rfl <;> interval_cases a <;> rfl

/-- The two shifts of a 16-bit load take a piece of the doubleword. -/
theorem short_piece (rdata : Word64) {k : ℕ} (hk : k ≤ 6) :
    (rdata <<< (8 * (6 - k)) >>> 48).setWidth 16 = (rdata >>> (8 * k)).setWidth 16 := by
  apply BitVec.eq_of_getLsbD_eq
  intro i hi
  rw [BitVec.getLsbD_setWidth, BitVec.getLsbD_setWidth, BitVec.getLsbD_ushiftRight,
    BitVec.getLsbD_ushiftRight, BitVec.getLsbD_shiftLeft,
    decide_eq_true (by omega : 48 + i < 64),
    decide_eq_false (by omega : ¬48 + i < 8 * (6 - k)),
    show 48 + i - 8 * (6 - k) = 8 * k + i by omega]
  simp

/-- The lane of the less significant byte of a 16-bit load inside a doubleword. -/
def shortLane (endianFlip : ℕ) (addr : Word64) : ℕ :=
  if endianFlip = 0 then addr.toNat % 8 else 6 - addr.toNat % 8

theorem evalMem16_inside (bigEndianDefined : Bool) (hflip : endianFlip = 0 ∨ endianFlip = 7)
    (hinside : addr.toNat % 8 < 7) (stale : Word64) :
    evalMem16 bigEndianDefined endianFlip (LaneMemory.transport answer) mem addr stale =
      ((loadThrough (LaneMemory.transport answer) mem (addr &&& ~~~7) 3 stale).1,
        (loadThrough (LaneMemory.transport answer) mem (addr &&& ~~~7) 3 stale).2.map
          fun (rdata : Word64) =>
            (rdata >>> (8 * shortLane endianFlip addr)).setWidth 16) := by
  have hsplit : ¬(addr &&& ~~~7) + 8 - addr = 1 := by
    rw [split_iff]
    omega
  rw [evalMem16, if_neg hsplit]
  dsimp only
  rw [toNat_shift hflip hinside]
  have hpiece : ∀ rdata : Word64,
      (rdata <<< (8 * if endianFlip = 0 then 6 - addr.toNat % 8 else addr.toNat % 8) >>>
        48).setWidth 16 = (rdata >>> (8 * shortLane endianFlip addr)).setWidth 16 := by
    intro rdata
    rw [← short_piece rdata (by rw [shortLane]; split_ifs <;> omega), shortLane]
    congr 3
    split_ifs <;> omega
  simp only [hpiece]

theorem evalMem16_lanes (bigEndianDefined : Bool) (hflip : endianFlip = 0 ∨ endianFlip = 7)
    (haligned : Width.w16.bytes ∣ addr.toNat) (stale : Word64) :
    LoadsLanes endianFlip mem .w16 addr
      (evalMem16 bigEndianDefined endianFlip (LaneMemory.transport answer) mem addr stale) := by
  have hinside : addr.toNat % 8 < 7 := by
    dsimp only [Width.bytes] at haligned
    omega
  rw [evalMem16_inside bigEndianDefined hflip hinside]
  exact loadsLanes_of_piece hflip haligned rfl

theorem evalMem64_lanes (hflip : endianFlip = 0 ∨ endianFlip = 7) (stale : Word64) :
    LoadsLanes endianFlip mem .w64 addr
      (evalMem64 (LaneMemory.transport answer) mem addr stale) := by
  have hbus : busAddress endianFlip .w64 addr = addr := by
    rw [busAddress]
    rcases hflip with rfl | rfl <;> exact BitVec.xor_zero
  obtain ⟨rdata, hload, hbytes⟩ := loadThrough_lane answer mem addr stale 3
  refine ⟨rdata, hload, fun o ho => ?_⟩
  rw [hbus]
  exact hbytes o ho (.inl rfl)

/-- An aligned load gives the bytes that are at the lanes of the access. -/
theorem evalMem_lanes (bigEndianDefined : Bool) (hflip : endianFlip = 0 ∨ endianFlip = 7)
    (haligned : width.bytes ∣ addr.toNat) (stale : Word64) :
    LoadsLanes endianFlip mem width addr
      (evalMem bigEndianDefined endianFlip (LaneMemory.transport answer) mem width addr
        stale) := by
  cases width with
  | w8 => exact evalMem8_lanes hflip stale
  | w16 => exact evalMem16_lanes bigEndianDefined hflip haligned stale
  | w32 => exact evalMem32_lanes hflip haligned stale
  | w64 => exact evalMem64_lanes hflip stale

/-! ## Round trips -/

/-- A memory has changed at the bytes of an access only, where it holds the value. -/
structure Stored (endianFlip : ℕ) (before after : LaneMemory) (width : Width) (addr : Word64)
    (value : BitVec width.bits) : Prop where
  frame : ∀ x, ¬Addressed width addr x → byteAt endianFlip after x = byteAt endianFlip before x
  bytes : ∀ i < width.bytes, byteAt endianFlip after (addr + BitVec.ofNat 64 i) =
    orderedByte endianFlip width value i

/-- The bytes of an access, as the CPU orders them, are what a load gives. -/
theorem loaded_of_bytes (bigEndianDefined : Bool) (hflip : endianFlip = 0 ∨ endianFlip = 7)
    (haligned : width.bytes ∣ addr.toNat) {value : BitVec width.bits}
    (hbytes : ∀ i < width.bytes, byteAt endianFlip mem (addr + BitVec.ofNat 64 i) =
      orderedByte endianFlip width value i) (stale : Word64) :
    (evalMem bigEndianDefined endianFlip (LaneMemory.transport answer) mem width addr stale).2 =
      some value := by
  obtain ⟨v, hload, hlanes⟩ := evalMem_lanes bigEndianDefined hflip haligned stale
  rw [hload]
  refine congrArg some (ext_bytes fun o ho => ?_)
  -- the byte at lane `o` is the `i`-th for the CPU
  let i := if endianFlip = 0 then o else width.bytes - 1 - o
  have hi : i < width.bytes := by
    dsimp only [i]
    split_ifs <;> omega
  have hback : (if endianFlip = 0 then i else width.bytes - 1 - i) = o := by
    dsimp only [i]
    split_ifs <;> omega
  have hbyte := hbytes i hi
  rw [byteAt, lane_of_byte hflip haligned hi, orderedByte, hback] at hbyte
  exact (hlanes o ho).trans hbyte

/-- A value at the lanes of an access is stored there. -/
theorem stored_storedAt (mem : LaneMemory) (hflip : endianFlip = 0 ∨ endianFlip = 7)
    (haligned : width.bytes ∣ addr.toNat) (value : BitVec width.bits) :
    Stored endianFlip mem (storedAt mem (busAddress endianFlip width addr) width value) width
      addr value where
  frame x hx := by
    rw [addressed_iff hflip haligned] at hx
    rw [byteAt, storedAt, if_neg hx, byteAt]
  bytes i hi := by
    have hlt : (if endianFlip = 0 then i else width.bytes - 1 - i) < width.bytes := by
      split_ifs <;> omega
    have hbytes : width.bytes ≤ 8 := by cases width <;> norm_num
    have hoffset : ∀ k < width.bytes, ((busAddress endianFlip width addr +
        BitVec.ofNat 64 k) - busAddress endianFlip width addr).toNat = k := by
      intro k hk
      rw [BitVec.add_comm, BitVec.add_sub_cancel, BitVec.toNat_ofNat, Nat.mod_eq_of_lt (by omega)]
    rw [byteAt, lane_of_byte hflip haligned hi, storedAt, hoffset _ hlt, if_pos hlt, orderedByte]

/-! ## Store-conditional operations -/

/-- The lane of the address of a store-conditional operation. -/
theorem toNat_flippedLane (hflip : endianFlip = 0 ∨ endianFlip = 7) (addr : Word64) :
    ((addr ^^^ BitVec.ofNat 64 endianFlip) &&& 7).toNat =
      if endianFlip = 0 then addr.toNat % 8 else 7 - addr.toNat % 8 := by
  have hand := flipped_and hflip (by norm_num : 7 < 8) addr
  rw [show 7 = 2 ^ 3 - 1 by rfl, Nat.and_two_pow_sub_one_eq_mod, BitVec.xor_comm] at hand
  refine hand.trans ?_
  split_ifs <;> omega

theorem laneEnabled_writeMask {payload : Payload} {bytes piece l : ℕ} (hl : l < 8)
    (henable : payload.byteEnable = some (writeMask bytes piece))
    (hlength : payload.byteEnableLength = 8) :
    laneEnabled payload l ↔ l / bytes = piece := by
  rw [laneEnabled, henable, hlength]
  dsimp only
  rw [Nat.mod_eq_of_lt hl, writeMask]
  split_ifs with hpiece <;> simp [hpiece]

/-- A mask of low bits keeps the low bits. -/
theorem setWidth_setWidth_low {n mask : ℕ} (hn : n ≤ 64) (hmask : mask = 2 ^ n - 1)
    (value : Word64) :
    ((value.setWidth n).setWidth 64 : Word64) = value &&& BitVec.ofNat 64 mask := by
  apply BitVec.eq_of_toNat_eq
  have hpow : 2 ^ n ≤ 2 ^ 64 := Nat.pow_le_pow_right (by norm_num) hn
  have hlt : value.toNat % 2 ^ n < 2 ^ n := Nat.mod_lt _ (by positivity)
  have hfits : 2 ^ n - 1 < 2 ^ 64 := by
    have := Nat.two_pow_pos n
    omega
  rw [BitVec.toNat_setWidth, BitVec.toNat_setWidth, BitVec.toNat_and, BitVec.toNat_ofNat, hmask,
    Nat.mod_eq_of_lt hfits, Nat.and_two_pow_sub_one_eq_mod, Nat.mod_eq_of_lt (by omega)]

/-- Apart from the 16-bit one, a store-conditional operation puts the value at the first
lane of the access. -/
theorem store_storeConditional (hflip : endianFlip = 0 ∨ endianFlip = 7)
    (haligned : width.bytes ∣ addr.toNat) (hwidth : width ≠ .w16) (procID : ℕ)
    (value : Word64) :
    mem.store (storeConditional endianFlip procID addr value width) =
      storedAt mem (busAddress endianFlip width addr) width (value.setWidth width.bits) := by
  have hlane := toNat_flippedLane hflip addr
  have haligned' := aligned_lane haligned
  have hlow : addr.toNat % 8 < 8 := Nat.mod_lt _ (by norm_num)
  refine store_eq_storedAt hflip haligned (toNat_doubleword addr) rfl (fun l hl => ?_)
    fun o ho => ?_
  · cases width with
    | w8 =>
        rw [laneEnabled_writeMask hl rfl rfl, hlane, firstLane]
        dsimp only [Width.bytes]
        split_ifs <;> omega
    | w16 => exact absurd rfl hwidth
    | w32 =>
        rw [laneEnabled_writeMask hl rfl rfl, hlane, firstLane]
        dsimp only [Width.bytes] at *
        split_ifs <;> omega
    | w64 =>
        have hall : laneEnabled (storeConditional endianFlip procID addr value .w64) l := rfl
        rw [iff_true_left hall, firstLane]
        dsimp only [Width.bytes] at *
        split_ifs <;> omega
  · obtain ⟨hl, hmod⟩ := firstLane_mod hflip haligned ho
    have hdata : (storeConditional endianFlip procID addr value width).data =
        bytes64 (replicated width (value.setWidth width.bits)) := by
      cases width with
      | w8 =>
          have hmask : (value.setWidth 8).setWidth 64 = value &&& 0xFF :=
            setWidth_setWidth_low (by norm_num) rfl value
          dsimp only [storeConditional, replicated, Width.bits, Width.bytes]
          rw [hmask, BitVec.or_comm ((value &&& 0xFF) <<< 8)]
      | w16 => exact absurd rfl hwidth
      | w32 =>
          have hmask : (value.setWidth 32).setWidth 64 = value &&& 0xFFFFFFFF :=
            setWidth_setWidth_low (by norm_num) rfl value
          dsimp only [storeConditional, replicated, Width.bits, Width.bytes]
          rw [hmask, BitVec.or_comm ((value &&& 0xFFFFFFFF) <<< 32)]
      | w64 =>
          have hsame : value.setWidth 64 = value := BitVec.setWidth_eq value
          dsimp only [storeConditional, replicated, Width.bits, Width.bytes]
          rw [hsame]
    rw [hdata, bytes64_replicated hl, hmod]

/-- A halfword twice. -/
def twice (value : BitVec 16) : BitVec 32 := value.setWidth 32 ||| value.setWidth 32 <<< 16

theorem extract_twice (value : BitVec 16) {o : ℕ} (ho : o < 4) :
    (twice value).extractLsb' (8 * o) 8 = value.extractLsb' (8 * (o % 2)) 8 := by
  apply BitVec.eq_of_getLsbD_eq
  intro i hi
  interval_cases o <;> interval_cases i <;> simp [twice]

/-- A 16-bit store-conditional operation is a 32-bit one that stores the value twice. -/
theorem storeConditional_short (hflip : endianFlip = 0 ∨ endianFlip = 7) (procID : ℕ)
    (addr value : Word64) :
    mem.store (storeConditional endianFlip procID addr value .w16) =
      storedAt mem (busAddress endianFlip .w32 (wordOf addr)) .w32
        (twice (value.setWidth 16)) := by
  have haligned : Width.w32.bytes ∣ (wordOf addr).toNat := by
    rw [toNat_wordOf]
    dsimp only [Width.bytes]
    omega
  have hword := toNat_wordOf addr
  refine store_eq_storedAt hflip haligned ?_ rfl (fun l hl => ?_) fun o ho => ?_
  · change (addr &&& ~~~7).toNat = _
    rw [toNat_doubleword, hword]
    omega
  · rw [laneEnabled_writeMask hl rfl rfl, toNat_flippedLane hflip, firstLane, hword]
    dsimp only [Width.bytes]
    split_ifs <;> omega
  · obtain ⟨hl, hmod⟩ := firstLane_mod hflip haligned ho
    have hlow : (value.setWidth 16).setWidth 64 = value &&& 0xFFFF :=
      setWidth_setWidth_low (by norm_num) rfl value
    have hdata : (storeConditional endianFlip procID addr value .w16).data =
        bytes64 (replicated .w16 (value.setWidth 16)) := by
      dsimp only [storeConditional, replicated]
      rw [hlow, BitVec.or_comm ((value &&& 0xFFFF) <<< 16)]
    have hmod' : (firstLane endianFlip .w32 (wordOf addr) + o) % 2 = o % 2 := by
      dsimp only [Width.bytes] at hmod
      omega
    rw [hdata, bytes64_replicated hl, extract_twice _ ho]
    dsimp only [Width.bytes]
    rw [hmod']

/-! ## The accesses of a program -/

/-- The address of the other halfword of a word. -/
def neighbour (addr : Word64) : Word64 := addr ^^^ 2

theorem toNat_neighbour (haligned : Width.w16.bytes ∣ addr.toNat) :
    (neighbour addr).toNat = (wordOf addr).toNat + (2 - addr.toNat % 4) := by
  have htable : ∀ a < 8, a % 2 = 0 → a ^^^ 2 = a - a % 4 + (2 - a % 4) := by decide
  have hlane := htable (addr.toNat % 8) (Nat.mod_lt _ (by norm_num)) (by
    dsimp only [Width.bytes] at haligned
    omega)
  calc
    (neighbour addr).toNat = 8 * (addr.toNat / 8) + (addr.toNat % 8 ^^^ 2) :=
      xor_lane (by norm_num) addr
    _ = (wordOf addr).toNat + (2 - addr.toNat % 4) := by
      rw [hlane, toNat_wordOf]
      omega

/-- The bytes of the word after a 16-bit store-conditional operation. -/
theorem byteAt_short (hflip : endianFlip = 0 ∨ endianFlip = 7) (procID : ℕ)
    (addr value : Word64) {k : ℕ} (hk : k < 4) :
    byteAt endianFlip (mem.store (storeConditional endianFlip procID addr value .w16))
        (wordOf addr + BitVec.ofNat 64 k) =
      orderedByte endianFlip .w16 (value.setWidth 16) (k % 2) := by
  have haligned : Width.w32.bytes ∣ (wordOf addr).toNat := by
    rw [toNat_wordOf]
    dsimp only [Width.bytes]
    omega
  have hbytes := (stored_storedAt mem hflip haligned (twice (value.setWidth 16))).bytes k hk
  have hlane : (if endianFlip = 0 then k else Width.w32.bytes - 1 - k) < 4 := by
    dsimp only [Width.bytes]
    split_ifs <;> omega
  rw [storeConditional_short hflip, hbytes, orderedByte, extract_twice _ hlane, orderedByte]
  congr 2
  dsimp only [Width.bytes]
  split_ifs <;> omega

/-- A 16-bit store-conditional operation stores the value at the neighbour too. -/
theorem stored_short_iff (hflip : endianFlip = 0 ∨ endianFlip = 7)
    (haligned : Width.w16.bytes ∣ addr.toNat) (procID : ℕ) (value : Word64) :
    Stored endianFlip mem (mem.store (storeConditional endianFlip procID addr value .w16)) .w16
        addr (value.setWidth 16) ↔
      ∀ i < 2, byteAt endianFlip mem (neighbour addr + BitVec.ofNat 64 i) =
        orderedByte endianFlip .w16 (value.setWidth 16) i := by
  have hword := toNat_wordOf addr
  have haddr := addr.isLt
  have hneighbour := toNat_neighbour haligned
  dsimp only [Width.bytes] at haligned
  have hnext : ∀ i < 2, neighbour addr + BitVec.ofNat 64 i =
      wordOf addr + BitVec.ofNat 64 (2 - addr.toNat % 4 + i) := by
    intro i hi
    apply BitVec.eq_of_toNat_eq
    rw [BitVec.toNat_add, BitVec.toNat_add, BitVec.toNat_ofNat, BitVec.toNat_ofNat, hneighbour]
    omega
  constructor
  · rintro ⟨hframe, -⟩ i hi
    have hother : ¬Addressed .w16 addr (neighbour addr + BitVec.ofNat 64 i) := by
      rw [hnext i hi, Addressed, BitVec.toNat_sub, BitVec.toNat_add, BitVec.toNat_ofNat, hword]
      dsimp only [Width.bytes]
      omega
    rw [← hframe _ hother, hnext i hi, byteAt_short hflip procID addr value (by omega)]
    congr 1
    omega
  · intro hsame
    refine ⟨fun x hx => ?_, fun i hi => ?_⟩
    · by_cases hinside : Addressed .w32 (wordOf addr) x
      · obtain ⟨k, hk, rfl⟩ : ∃ k < 4, x = wordOf addr + BitVec.ofNat 64 k := by
          refine ⟨(x - wordOf addr).toNat, hinside, ?_⟩
          rw [BitVec.ofNat_toNat, BitVec.setWidth_eq, BitVec.add_comm, BitVec.sub_add_cancel]
        rw [Addressed, BitVec.toNat_sub, BitVec.toNat_add, BitVec.toNat_ofNat, hword] at hx
        dsimp only [Width.bytes] at hx
        have hk' : k = 2 - addr.toNat % 4 + k % 2 := by omega
        have hbefore := hsame (k % 2) (Nat.mod_lt _ (by norm_num))
        rw [hnext _ (Nat.mod_lt _ (by norm_num)), ← hk'] at hbefore
        rw [byteAt_short hflip procID addr value hk, hbefore]
      · have haligned' : Width.w32.bytes ∣ (wordOf addr).toNat := by
          rw [hword]
          dsimp only [Width.bytes]
          omega
        rw [storeConditional_short hflip]
        exact (stored_storedAt mem hflip haligned' _).frame x hinside
    · have hthis : addr + BitVec.ofNat 64 i =
          wordOf addr + BitVec.ofNat 64 (addr.toNat % 4 + i) := by
        apply BitVec.eq_of_toNat_eq
        rw [BitVec.toNat_add, BitVec.toNat_add, BitVec.toNat_ofNat, BitVec.toNat_ofNat, hword]
        omega
      dsimp only [Width.bytes] at hi
      rw [hthis, byteAt_short hflip procID addr value (by omega)]
      congr 1
      omega

/-! ## Short loads at odd addresses -/

/-- The two bytes at an address in the order of the core. -/
def shortAt (endianFlip : ℕ) (mem : LaneMemory) (addr : Word64) : BitVec 16 :=
  if endianFlip = 0 then byteAt endianFlip mem (addr + 1) ++ byteAt endianFlip mem addr
  else byteAt endianFlip mem addr ++ byteAt endianFlip mem (addr + 1)

theorem append_inj {high low high' low' : Byte} :
    high ++ low = high' ++ low' ↔ high = high' ∧ low = low' := by
  refine ⟨fun hsame => ⟨?_, ?_⟩, fun ⟨hhigh, hlow⟩ => by rw [hhigh, hlow]⟩
  · have hbyte := congrArg (fun word : BitVec 16 => word.extractLsb' 8 8) hsame
    simpa only [BitVec.extractLsb'_append_eq_left] using hbyte
  · have hbyte := congrArg (fun word : BitVec 16 => word.extractLsb' 0 8) hsame
    simpa only [BitVec.extractLsb'_append_eq_right] using hbyte

/-- A piece of two bytes of a doubleword. -/
theorem shifted_short (rdata : Word64) (k : ℕ) :
    (rdata >>> (8 * k)).setWidth 16 = bytes64 rdata (k + 1) ++ bytes64 rdata k := by
  apply BitVec.eq_of_getLsbD_eq
  intro i hi
  rw [BitVec.getLsbD_setWidth, BitVec.getLsbD_ushiftRight, BitVec.getLsbD_append, bytes64, bytes64,
    BitVec.getLsbD_extractLsb', BitVec.getLsbD_extractLsb', decide_eq_true hi, Bool.true_and]
  split_ifs with hlow
  · rw [decide_eq_true hlow, Bool.true_and]
  · rw [decide_eq_true (by omega), Bool.true_and]
    congr 1
    omega

theorem splitShort_eq (bigEndianDefined : Bool) (rdata1 rdata2 : Word64) :
    splitShort bigEndianDefined rdata1 rdata2 =
      if bigEndianDefined then bytes64 rdata1 0 ++ bytes64 rdata2 7
      else bytes64 rdata1 7 ++ bytes64 rdata1 7 := by
  apply BitVec.eq_of_getLsbD_eq
  intro i hi
  cases bigEndianDefined
  · rw [if_neg Bool.false_ne_true, BitVec.getLsbD_append]
    interval_cases i <;> simp [splitShort, bytes64]
  · rw [if_pos rfl, BitVec.getLsbD_append]
    interval_cases i <;> simp [splitShort, bytes64]

/-- The lanes of a doubleword are the bytes of the CPU. -/
theorem lane_eq_byteAt (hflip : endianFlip = 0 ∨ endianFlip = 7) {base : Word64} {l : ℕ}
    (hx : x.toNat = base.toNat + if endianFlip = 0 then l else 7 - l)
    (hbase : base.toNat % 8 = 0) (hl : l < 8) :
    mem (base + BitVec.ofNat 64 l) = byteAt endianFlip mem x := by
  have hxlt := x.isLt
  rw [byteAt]
  congr 1
  apply BitVec.eq_of_toNat_eq
  rw [toNat_flip hflip, BitVec.toNat_add, BitVec.toNat_ofNat, hx]
  split_ifs at * <;> omega

/-- A load inside a doubleword gives the two bytes. -/
theorem evalMem16_odd (bigEndianDefined : Bool) (hflip : endianFlip = 0 ∨ endianFlip = 7)
    (hinside : addr.toNat % 8 < 7) (stale : Word64) :
    (evalMem16 bigEndianDefined endianFlip (LaneMemory.transport answer) mem addr stale).2 =
      some (shortAt endianFlip mem addr) := by
  obtain ⟨rdata, hload, hbytes⟩ := loadThrough_lane answer mem (addr &&& ~~~7) stale 3
  have hbase := toNat_doubleword addr
  have haddr := addr.isLt
  have hone : (1 : Word64).toNat = 1 := rfl
  have hnext : (addr + 1).toNat = addr.toNat + 1 := by
    rw [BitVec.toNat_add, hone]
    omega
  have hlane : shortLane endianFlip addr + 1 < 8 := by
    rw [shortLane]
    split_ifs <;> omega
  have hlow : mem ((addr &&& ~~~7) + BitVec.ofNat 64 (shortLane endianFlip addr)) =
      byteAt endianFlip mem (if endianFlip = 0 then addr else addr + 1) := by
    refine lane_eq_byteAt hflip ?_ (by omega) (by omega)
    rw [hbase, shortLane]
    split_ifs <;> omega
  have hhigh : mem ((addr &&& ~~~7) + BitVec.ofNat 64 (shortLane endianFlip addr + 1)) =
      byteAt endianFlip mem (if endianFlip = 0 then addr + 1 else addr) := by
    refine lane_eq_byteAt hflip ?_ (by omega) hlane
    rw [hbase, shortLane]
    split_ifs <;> omega
  rw [evalMem16_inside bigEndianDefined hflip hinside, hload]
  dsimp only [Option.map_some]
  rw [shifted_short, hbytes _ hlane (.inl rfl), hbytes _ (by omega) (.inl rfl), hlow, hhigh,
    shortAt]
  split_ifs <;> rfl

/-- The last byte of a doubleword: the bytes that the two halves of the load take, the
first one's last byte or lane 0 of it and lane 7 of the second, are those of the short. -/
def LastByteRight (bigEndianDefined : Bool) (endianFlip : ℕ) (mem : LaneMemory)
    (addr : Word64) : Prop :=
  if bigEndianDefined then
    endianFlip = 7 ∨ byteAt endianFlip mem (addr - 7) = byteAt endianFlip mem (addr + 1) ∧
      byteAt endianFlip mem (addr + 8) = byteAt endianFlip mem addr
  else if endianFlip = 0 then byteAt endianFlip mem addr = byteAt endianFlip mem (addr + 1)
  else byteAt endianFlip mem (addr - 7) = byteAt endianFlip mem addr ∧
    byteAt endianFlip mem (addr - 7) = byteAt endianFlip mem (addr + 1)

/-- What a load from the last byte of a doubleword gives. -/
theorem evalMem16_last (bigEndianDefined : Bool) (hlast : addr.toNat % 8 = 7) (stale : Word64) :
    (evalMem16 bigEndianDefined endianFlip (LaneMemory.transport answer) mem addr stale).2 =
      some (if bigEndianDefined then
        mem (addr &&& ~~~7) ++ mem ((addr &&& ~~~7) + 8 + BitVec.ofNat 64 7)
      else mem ((addr &&& ~~~7) + BitVec.ofNat 64 7) ++
        mem ((addr &&& ~~~7) + BitVec.ofNat 64 7)) := by
  obtain ⟨rdata1, hload1, hbytes1⟩ := loadThrough_lane answer mem (addr &&& ~~~7) stale 3
  obtain ⟨rdata2, hload2, hbytes2⟩ := loadThrough_lane answer mem ((addr &&& ~~~7) + 8) stale 3
  have hfirst := hbytes1 0 (by norm_num) (.inl rfl)
  rw [BitVec.add_zero] at hfirst
  rw [evalMem16, if_pos ((split_iff addr).mpr hlast)]
  simp only [hload1, hload2, Option.map_some, splitShort_eq, hfirst,
    hbytes1 7 (by norm_num) (.inl rfl), hbytes2 7 (by norm_num) (.inl rfl)]

/-- A load from the last byte of a doubleword gives the short in some cases only. -/
theorem evalMem16_last_iff (bigEndianDefined : Bool) (hflip : endianFlip = 0 ∨ endianFlip = 7)
    (hlast : addr.toNat % 8 = 7) (stale : Word64) :
    (evalMem16 bigEndianDefined endianFlip (LaneMemory.transport answer) mem addr stale).2 =
        some (shortAt endianFlip mem addr) ↔
      LastByteRight bigEndianDefined endianFlip mem addr := by
  have hbase := toNat_doubleword addr
  have haddr := addr.isLt
  have hlanes : ∀ x y : Word64, (x ^^^ BitVec.ofNat 64 endianFlip).toNat = y.toNat →
      mem y = byteAt endianFlip mem x := by
    intro x y hxy
    rw [byteAt, BitVec.eq_of_toNat_eq hxy]
  have hone : (1 : Word64).toNat = 1 := rfl
  have hseven : (7 : Word64).toNat = 7 := rfl
  have height : (8 : Word64).toNat = 8 := rfl
  rw [evalMem16_last bigEndianDefined hlast, Option.some.injEq, shortAt, LastByteRight]
  rcases hflip with rfl | rfl
  · have hfirst : mem (addr &&& ~~~7) = byteAt 0 mem (addr - 7) := by
      refine hlanes _ _ ?_
      rw [toNat_flip (.inl rfl), if_pos rfl, BitVec.toNat_sub, hbase, hseven]
      omega
    have hthis : mem ((addr &&& ~~~7) + BitVec.ofNat 64 7) = byteAt 0 mem addr := by
      refine hlanes _ _ ?_
      rw [toNat_flip (.inl rfl), if_pos rfl, BitVec.toNat_add, hbase, BitVec.toNat_ofNat]
      omega
    have hother : mem ((addr &&& ~~~7) + 8 + BitVec.ofNat 64 7) = byteAt 0 mem (addr + 8) := by
      refine hlanes _ _ ?_
      rw [toNat_flip (.inl rfl), if_pos rfl, BitVec.toNat_add, BitVec.toNat_add,
        BitVec.toNat_add, hbase, BitVec.toNat_ofNat, height]
      omega
    rw [hfirst, hthis, hother, if_pos rfl]
    cases bigEndianDefined
    · rw [if_neg Bool.false_ne_true, if_neg Bool.false_ne_true, if_pos rfl, append_inj,
        and_iff_left rfl]
    · rw [if_pos rfl, if_pos rfl, append_inj, or_iff_right (by norm_num)]
  · have hfirst : mem (addr &&& ~~~7) = byteAt 7 mem addr := by
      refine hlanes _ _ ?_
      rw [toNat_flip (.inr rfl), if_neg (by norm_num), hbase]
      omega
    have hlower : mem ((addr &&& ~~~7) + BitVec.ofNat 64 7) = byteAt 7 mem (addr - 7) := by
      refine hlanes _ _ ?_
      rw [toNat_flip (.inr rfl), if_neg (by norm_num), BitVec.toNat_sub, BitVec.toNat_add, hbase,
        BitVec.toNat_ofNat, hseven]
      omega
    have hother : mem ((addr &&& ~~~7) + 8 + BitVec.ofNat 64 7) = byteAt 7 mem (addr + 1) := by
      refine hlanes _ _ ?_
      rw [toNat_flip (.inr rfl), if_neg (by norm_num), BitVec.toNat_add, BitVec.toNat_add,
        BitVec.toNat_add, hbase, BitVec.toNat_ofNat, height, hone]
      omega
    have hbig : ¬7 = 0 := by norm_num
    rw [hfirst, hlower, hother]
    cases bigEndianDefined
    · rw [if_neg Bool.false_ne_true, if_neg Bool.false_ne_true, if_neg hbig, if_neg hbig,
        append_inj]
    · rw [if_pos rfl, if_pos rfl, if_neg hbig, iff_true_left rfl]
      exact .inl rfl

/-- The accesses of a program: a store, or a store-conditional operation, that a load of
the same address follows, and a 16-bit load at an odd address. -/
inductive Access where
  | set (width : Width) (addr : Word64) (value : BitVec width.bits)
  | storeConditional (width : Width) (addr value : Word64)
  | oddShort (addr : Word64)

/-- The addresses of stores are aligned. -/
def Access.WellFormed : Access → Prop
  | .set width addr _ | .storeConditional width addr _ => width.bytes ∣ addr.toNat
  | .oddShort addr => addr.toNat % 2 = 1

/-- A core and the answers of its memory. -/
structure Core where
  bigEndianDefined : Bool
  endianFlip : ℕ
  procID : ℕ
  stale : Word64
  answer : Payload → Response

variable (core : Core)

/-- A value is stored at its bytes only, and a load from there gives it back. -/
def Core.Holds (before after : LaneMemory) (width : Width) (addr : Word64)
    (value : BitVec width.bits) : Prop :=
  Stored core.endianFlip before after width addr value ∧
    (evalMem core.bigEndianDefined core.endianFlip (LaneMemory.transport core.answer) after width
      addr core.stale).2 = some value

/-- An access does what it should. -/
def Core.Works (mem : LaneMemory) : Access → Prop
  | .set width addr value =>
      core.Holds mem (mem.transport core.answer (setMem core.endianFlip width addr value)).1
        width addr value
  | .storeConditional width addr value =>
      let result := cpuMemStoreConditional core.endianFlip core.procID
        (LaneMemory.transport core.answer) mem addr value width
      result.2 = 1 → core.Holds mem result.1 width addr (value.setWidth width.bits)
  | .oddShort addr =>
      (evalMem16 core.bigEndianDefined core.endianFlip (LaneMemory.transport core.answer) mem addr
        core.stale).2 = some (shortAt core.endianFlip mem addr)

/-- The accesses that do what they should: a 16-bit store-conditional operation if the
memory refuses it or the neighbouring halfword has the value already. -/
def Core.Sound (mem : LaneMemory) : Access → Prop
  | .storeConditional .w16 addr value =>
      core.answer (storeConditional core.endianFlip core.procID addr value .w16) = .ok →
        ∀ i < 2, byteAt core.endianFlip mem (neighbour addr + BitVec.ofNat 64 i) =
          orderedByte core.endianFlip .w16 (value.setWidth 16) i
  | .oddShort addr =>
      addr.toNat % 8 = 7 → LastByteRight core.bigEndianDefined core.endianFlip mem addr
  | _ => True

variable {core}

/-- What is stored can be loaded. -/
theorem Core.holds_iff (hflip : core.endianFlip = 0 ∨ core.endianFlip = 7)
    (haligned : width.bytes ∣ addr.toNat) (before after : LaneMemory)
    (value : BitVec width.bits) :
    core.Holds before after width addr value ↔
      Stored core.endianFlip before after width addr value := by
  refine and_iff_left_of_imp fun hstored => ?_
  exact loaded_of_bytes core.bigEndianDefined hflip haligned hstored.bytes core.stale

/-- The outcome of a store-conditional operation is the answer of the memory. -/
theorem Core.storeConditional_success (addr value : Word64) (width : Width) :
    cpuMemStoreConditional core.endianFlip core.procID (LaneMemory.transport core.answer) mem
        addr value width =
      (if core.answer (storeConditional core.endianFlip core.procID addr value width) = .ok then
          mem.store (storeConditional core.endianFlip core.procID addr value width) else mem,
        match core.answer (storeConditional core.endianFlip core.procID addr value width) with
        | .ok => 1
        | .genericError => 2
        | _ => 0) := by
  rfl

/-- An access does what it should exactly if it is sound. -/
theorem Core.works_iff (core : Core) (hflip : core.endianFlip = 0 ∨ core.endianFlip = 7)
    (mem : LaneMemory) (access : Access) (haccess : access.WellFormed) :
    core.Works mem access ↔ core.Sound mem access := by
  cases access with
  | set width addr value =>
      refine iff_of_true ?_ trivial
      rw [Core.Works, holds_iff hflip haccess]
      have hstore : (mem.transport core.answer (setMem core.endianFlip width addr value)).1 =
          mem.store (setMem core.endianFlip width addr value) := by
        cases width <;> rfl
      rw [hstore, store_setMem hflip haccess]
      exact stored_storedAt mem hflip haccess value
  | storeConditional width addr value =>
      rw [Core.Works, storeConditional_success]
      dsimp only
      rw [holds_iff hflip haccess]
      by_cases hgranted :
          core.answer (storeConditional core.endianFlip core.procID addr value width) = .ok
      · rw [hgranted, if_pos rfl, imp_iff_right rfl]
        by_cases hwidth : width = .w16
        · subst hwidth
          rw [Core.Sound, imp_iff_right hgranted]
          exact stored_short_iff hflip haccess core.procID value
        · have hsound : core.Sound mem (.storeConditional width addr value) := by
            cases width <;> first | exact absurd rfl hwidth | trivial
          rw [iff_true_right hsound, store_storeConditional hflip haccess hwidth]
          exact stored_storedAt mem hflip haccess _
      · have hsound : core.Sound mem (.storeConditional width addr value) := by
          cases width <;> first | trivial | exact fun h => absurd h hgranted
        refine iff_of_true (fun hone => absurd hone ?_) hsound
        split
        case h_1 hok => exact absurd hok hgranted
        case h_2 => norm_num
        case h_3 => norm_num
  | oddShort addr =>
      rw [Core.Works, Core.Sound]
      by_cases hlast : addr.toNat % 8 = 7
      · rw [imp_iff_right hlast]
        exact evalMem16_last_iff core.bigEndianDefined hflip hlast core.stale
      · have hinside : addr.toNat % 8 < 7 := by omega
        exact iff_of_true (evalMem16_odd core.bigEndianDefined hflip hinside core.stale)
          fun h => absurd h hlast

/-- A little-endian core whose memory grants every store-conditional operation. -/
def plainCore : Core := ⟨true, 0, 0, 0, fun _ => .ok⟩

/-- A memory whose first halfword is `0x1234`. -/
def firstShort : LaneMemory := fun addr => if addr = 0 then 0x34 else if addr = 1 then 0x12 else 0

theorem works_firstShort : plainCore.Works firstShort (.storeConditional .w16 2 0x1234) := by
  have haligned : Access.WellFormed (.storeConditional .w16 2 0x1234) := ⟨1, rfl⟩
  refine (Core.works_iff plainCore (.inl rfl) _ _ haligned).mpr fun _ i hi => ?_
  interval_cases i <;> decide

/-- A 16-bit store-conditional operation to an empty memory changes two bytes that it is
not for. -/
theorem not_works_short :
    ¬∀ (core : Core), core.endianFlip = 0 ∨ core.endianFlip = 7 →
      ∀ (mem : LaneMemory) (access : Access), access.WellFormed → core.Works mem access := by
  intro hclaim
  have hworks := hclaim plainCore (.inl rfl) (fun _ => 0) (.storeConditional .w16 0 0x1234)
    ⟨0, rfl⟩
  have hstored := (hworks rfl).1
  have hother : ¬Addressed .w16 0 2 := by
    unfold Addressed
    decide
  have hbyte := hstored.frame 2 hother
  revert hbyte
  decide

end Prazor.Bus
