import Prazor.Core.Machine
import Prazor.Core.Payload

/-!
# The memory-mapped 2x2 matrix multiplier

`matMul_2x2` holds two matrices of four bytes, row by row, and the four 16-bit
entries of their product.  A write at `MEM_BASE + MATA` or `MEM_BASE + MATB`
replaces one operand; every write, wherever it goes, clears the result and
accumulates the product again.  A read at `MEM_BASE + RES_LO` or
`MEM_BASE + RES_HI` returns one row of the result.
-/

namespace Prazor.Matrix

open Prazor.Tlm Prazor.Bytes

def memBase : Word64 := 0xE0002000
def mata : Word64 := 0x00
def matb : Word64 := 0x04
def resLo : Word64 := 0x08
def resHi : Word64 := 0x0C

/-- Four matrix elements of eight bits, row by row. -/
abbrev Operand := Fin 4 → Byte

/-- Four result entries of sixteen bits, row by row. -/
abbrev Result := Fin 4 → BitVec 16

/-- The array index `i*2+j` of the element in row `i` and column `j`. -/
def cell (i j : Fin 2) : Fin 4 := ⟨i * 2 + j, by omega⟩

/-- The loop nest `for i, for j, for k: res[i*2+j] += matA[i*2+k] *
matB[k*2+j]`.  The product of two `u8` is an `int` below `2^16`; the compound
assignment truncates the sum to sixteen bits. -/
def multiplyAccumulate (matA matB : Operand) (res : Result) : Result :=
  (List.finRange 2).foldl (fun res i =>
    (List.finRange 2).foldl (fun res j =>
      (List.finRange 2).foldl (fun res k =>
        Function.update res (cell i j)
          (res (cell i j) +
            (matA (cell i k)).setWidth 16 * (matB (cell k j)).setWidth 16))
        res)
      res)
    res

/-- `*(u32 *) mat = *(u32 *) &data[0]`. -/
def loadOperand (data : Buffer) : Operand := fun i => data i

/-- `*(u32 *) &res[first]`: two adjacent entries, the first one in the low
half. -/
def resultWord (res : Result) (first : Fin 4) : BitVec 32 :=
  res (first + 1) ++ res first

structure MatMul2x2 where
  matA : Operand
  matB : Operand
  res : Result

def MatMul2x2.fresh : MatMul2x2 :=
  { matA := fun _ => 0, matB := fun _ => 0, res := fun _ => 0 }

/-- The operands after a write with this offset and data. -/
def MatMul2x2.store (device : MatMul2x2) (offset : Word64) (data : Buffer) :
    MatMul2x2 :=
  if offset = mata then { device with matA := loadOperand data }
  else if offset = matb then { device with matB := loadOperand data }
  else device

/-- The blocking transport of the device.  The offset is the address `xor` the
base, the byte enables and the length are not looked at, and everything that
is not a write takes the read branch. -/
def bTransact (device : MatMul2x2) (trans : Payload) : MatMul2x2 × Payload :=
  let offset := trans.address ^^^ memBase
  if trans.command = .write then
    let stored := device.store offset trans.data
    ({ stored with
        res := multiplyAccumulate stored.matA stored.matB (fun _ => 0) },
      { trans with response := .ok })
  else if offset = resLo then
    (device, { trans with
      data := memcpy 4 (bytes32 (resultWord device.res 0)) trans.data
      response := .ok })
  else if offset = resHi then
    (device, { trans with
      data := memcpy 4 (bytes32 (resultWord device.res 2)) trans.data
      response := .ok })
  else
    (device, { trans with response := .ok })

/-! ## The product the device stands for -/

/-- The matrix of naturals an operand denotes. -/
def byteMatrix (operand : Operand) : Matrix (Fin 2) (Fin 2) ℕ :=
  fun i j => (operand (cell i j)).toNat

/-- One row of the product modulo `2^16`, as a little-endian 32-bit word. -/
def productRow (matA matB : Operand) (i : Fin 2) : BitVec 32 :=
  BitVec.ofNat 16 ((byteMatrix matA * byteMatrix matB) i 1) ++
    BitVec.ofNat 16 ((byteMatrix matA * byteMatrix matB) i 0)

/-- The operand the most recent write to `MEM_BASE + offset` carried, all
zeros if there was none. -/
def lastOperand (offset : Word64) (inputs : List Payload) : Operand :=
  inputs.foldl (fun operand trans =>
    if trans.command = .write ∧ trans.address = memBase + offset then
      loadOperand trans.data
    else operand) (fun _ => 0)

theorem cell_injective {i j i' j' : Fin 2} (heq : cell i j = cell i' j') :
    i = i' ∧ j = j' := by
  simp only [cell, Fin.mk.injEq] at heq
  omega

theorem multiplyAccumulate_cell (matA matB : Operand) (res : Result)
    (i j : Fin 2) :
    multiplyAccumulate matA matB res (cell i j) =
      res (cell i j) +
        BitVec.ofNat 16 ((byteMatrix matA * byteMatrix matB) i j) := by
  have hproduct : ∀ i j k : Fin 2,
      (matA (cell i k)).setWidth 16 * (matB (cell k j)).setWidth 16 =
        BitVec.ofNat 16 (byteMatrix matA i k * byteMatrix matB k j) := by
    intro i j k
    apply BitVec.eq_of_toNat_eq
    simp [byteMatrix, BitVec.toNat_mul, Nat.mul_mod]
  have hcell : ∀ i j i' j' : Fin 2,
      cell i j = cell i' j' ↔ i = i' ∧ j = j' :=
    fun i j i' j' => ⟨cell_injective, fun h => by rw [h.1, h.2]⟩
  simp only [multiplyAccumulate, hproduct, List.finRange_succ, List.finRange_zero,
    List.map_cons, List.map_nil, List.foldl_cons, List.foldl_nil,
    Function.update_apply, hcell, Matrix.mul_apply, Fin.sum_univ_two]
  fin_cases i <;> fin_cases j <;> simp [BitVec.ofNat_add, BitVec.add_assoc]

/-- The `xor` decoder: an address is at one of the four offsets exactly when
it is the base plus that offset, at any 64-bit address. -/
theorem xor_memBase_eq_iff {offset : Word64}
    (hoffset : memBase + offset = memBase ^^^ offset) (address : Word64) :
    address ^^^ memBase = offset ↔ address = memBase + offset := by
  rw [hoffset]
  constructor
  · rintro rfl
    rw [BitVec.xor_comm address, ← BitVec.xor_assoc, BitVec.xor_self,
      BitVec.zero_xor]
  · rintro rfl
    rw [BitVec.xor_comm memBase, BitVec.xor_assoc, BitVec.xor_self,
      BitVec.xor_zero]

theorem xor_memBase_eq_mata (address : Word64) :
    address ^^^ memBase = mata ↔ address = memBase + mata :=
  xor_memBase_eq_iff (by decide) address

theorem xor_memBase_eq_matb (address : Word64) :
    address ^^^ memBase = matb ↔ address = memBase + matb :=
  xor_memBase_eq_iff (by decide) address

/-! ## The result registers follow the operands -/

/-- The result registers hold the product of the operand registers. -/
def MatMul2x2.Consistent (device : MatMul2x2) : Prop :=
  device.res = multiplyAccumulate device.matA device.matB (fun _ => 0)

theorem consistent_fresh : MatMul2x2.fresh.Consistent := by
  funext entry
  fin_cases entry <;> rfl

/-- Every transaction leaves the result registers holding the product of the
operands it leaves: a write recomputes it, anything else touches no register. -/
theorem consistent_bTransact (device : MatMul2x2) (trans : Payload)
    (hdevice : device.Consistent) : (bTransact device trans).1.Consistent := by
  simp only [bTransact]
  split
  · rfl
  · split
    · exact hdevice
    · split <;> exact hdevice

@[simp]
theorem bTransact_of_not_write (device : MatMul2x2) {trans : Payload}
    (hcommand : trans.command ≠ .write) : (bTransact device trans).1 = device := by
  simp only [bTransact, if_neg hcommand]
  split
  · rfl
  · split <;> rfl

theorem store_matA (device : MatMul2x2) (offset : Word64) (data : Buffer) :
    (device.store offset data).matA =
      if offset = mata then loadOperand data else device.matA := by
  unfold MatMul2x2.store
  split
  · rfl
  · split <;> rfl

theorem store_matB (device : MatMul2x2) (offset : Word64) (data : Buffer) :
    (device.store offset data).matB =
      if offset = matb then loadOperand data else device.matB := by
  unfold MatMul2x2.store
  split
  case isTrue hmata => rw [hmata, if_neg (by decide)]
  case isFalse hmata => split <;> rfl

theorem bTransact_matA (device : MatMul2x2) (trans : Payload) :
    (bTransact device trans).1.matA =
      if trans.command = .write ∧ trans.address = memBase + mata then
        loadOperand trans.data
      else device.matA := by
  by_cases hcommand : trans.command = .write
  · simp only [bTransact, hcommand, if_true, true_and, store_matA,
      xor_memBase_eq_mata]
  · rw [bTransact_of_not_write device hcommand, if_neg (fun h => hcommand h.1)]

theorem bTransact_matB (device : MatMul2x2) (trans : Payload) :
    (bTransact device trans).1.matB =
      if trans.command = .write ∧ trans.address = memBase + matb then
        loadOperand trans.data
      else device.matB := by
  by_cases hcommand : trans.command = .write
  · simp only [bTransact, hcommand, if_true, true_and, store_matB,
      xor_memBase_eq_matb]
  · rw [bTransact_of_not_write device hcommand, if_neg (fun h => hcommand h.1)]

/-- A transaction that writes neither operand leaves every register alone. -/
theorem bTransact_frame {device : MatMul2x2} (hdevice : device.Consistent)
    {trans : Payload}
    (hoffset : ¬(trans.command = .write ∧
      (trans.address = memBase + mata ∨ trans.address = memBase + matb))) :
    (bTransact device trans).1 = device := by
  have hmatA := bTransact_matA device trans
  have hmatB := bTransact_matB device trans
  rw [if_neg (fun h => hoffset ⟨h.1, .inl h.2⟩)] at hmatA
  rw [if_neg (fun h => hoffset ⟨h.1, .inr h.2⟩)] at hmatB
  have hres := consistent_bTransact device trans hdevice
  unfold MatMul2x2.Consistent at hres hdevice
  rw [hmatA, hmatB, ← hdevice] at hres
  cases hnext : (bTransact device trans).1
  cases device
  simp_all

/-! ## Reads -/

/-- Row `i` of a consistent device is row `i` of the product. -/
theorem resultWord_row {device : MatMul2x2} (hdevice : device.Consistent)
    (i : Fin 2) :
    resultWord device.res (cell i 0) =
      productRow device.matA device.matB i := by
  have hentry : ∀ j, device.res (cell i j) =
      BitVec.ofNat 16 ((byteMatrix device.matA * byteMatrix device.matB) i j) := by
    intro j
    rw [hdevice, multiplyAccumulate_cell]
    exact BitVec.zero_add _
  have hnext : cell i 0 + 1 = cell i 1 := by
    fin_cases i <;> rfl
  rw [resultWord, hnext, hentry, hentry, productRow]

theorem bTransact_read_resLo {device : MatMul2x2} (hdevice : device.Consistent)
    {trans : Payload} (hcommand : trans.command = .read)
    (haddress : trans.address = memBase + resLo) :
    load32 (bTransact device trans).2.data =
      productRow device.matA device.matB 0 := by
  have hoffset : trans.address ^^^ memBase = resLo := by
    rw [haddress]; decide
  simp only [bTransact, hcommand, hoffset, reduceCtorEq, if_false, if_true,
    load32_memcpy, load32_bytes32]
  exact resultWord_row hdevice 0

theorem bTransact_read_resHi {device : MatMul2x2} (hdevice : device.Consistent)
    {trans : Payload} (hcommand : trans.command = .read)
    (haddress : trans.address = memBase + resHi) :
    load32 (bTransact device trans).2.data =
      productRow device.matA device.matB 1 := by
  have hoffset : trans.address ^^^ memBase = resHi := by
    rw [haddress]; decide
  have hnotLo : resHi ≠ resLo := by decide
  simp only [bTransact, hcommand, hoffset, hnotLo, reduceCtorEq, if_false,
    if_true, load32_memcpy, load32_bytes32]
  exact resultWord_row hdevice 1

/-! ## Whole runs -/

theorem consistent_run (inputs : List Payload) :
    (Machine.run bTransact .fresh inputs).Consistent :=
  Machine.run_invariant bTransact consistent_bTransact consistent_fresh inputs

/-- From any device, the operand registers after a run are the ones it started
with, replaced by each write that addresses them. -/
theorem run_operands (device : MatMul2x2) (inputs : List Payload) :
    (Machine.run bTransact device inputs).matA =
        inputs.foldl (fun operand trans =>
          if trans.command = .write ∧ trans.address = memBase + mata then
            loadOperand trans.data
          else operand) device.matA ∧
      (Machine.run bTransact device inputs).matB =
        inputs.foldl (fun operand trans =>
          if trans.command = .write ∧ trans.address = memBase + matb then
            loadOperand trans.data
          else operand) device.matB := by
  induction inputs generalizing device with
  | nil => exact ⟨rfl, rfl⟩
  | cons trans rest ih =>
      have hrest := ih (bTransact device trans).1
      rw [bTransact_matA, bTransact_matB] at hrest
      exact hrest

/-- After any transactions in any order the device holds the operands most
recently written, a read of a result row returns that row of their product
modulo `2^16`, and only a write to an operand changes a register. -/
theorem run_serves_product (inputs : List Payload) :
    let device := Machine.run bTransact .fresh inputs
    let matA := lastOperand mata inputs
    let matB := lastOperand matb inputs
    (device.matA = matA ∧ device.matB = matB) ∧
      (∀ trans, trans.command = .read → trans.address = memBase + resLo →
        load32 (bTransact device trans).2.data = productRow matA matB 0) ∧
      (∀ trans, trans.command = .read → trans.address = memBase + resHi →
        load32 (bTransact device trans).2.data = productRow matA matB 1) ∧
      ∀ trans, ¬(trans.command = .write ∧
          (trans.address = memBase + mata ∨ trans.address = memBase + matb)) →
        (bTransact device trans).1 = device := by
  intro device matA matB
  have hconsistent : device.Consistent := consistent_run inputs
  have hoperands : device.matA = matA ∧ device.matB = matB :=
    run_operands .fresh inputs
  refine ⟨hoperands, ?_, ?_, ?_⟩
  · intro trans hcommand haddress
    rw [← hoperands.1, ← hoperands.2]
    exact bTransact_read_resLo hconsistent hcommand haddress
  · intro trans hcommand haddress
    rw [← hoperands.1, ← hoperands.2]
    exact bTransact_read_resHi hconsistent hcommand haddress
  · intro trans hoffset
    exact bTransact_frame hconsistent hoffset

end Prazor.Matrix
