import Prazor.Matrix.Device

/-!
# The pure-software multiplier

The pure build replaces the device by sixteen bytes of storage.  The `WRITE`
macro stores a word and then calls `matrix_multiply`, which accumulates the
product in a temporary and copies it to the two result words; `READ` loads a
word.  This file shows that the storage and the TLM device answer the same
accesses alike.
-/

namespace Prazor.Matrix

open Prazor.Tlm Prazor.Bytes

namespace Software

/-! Byte offsets, within `_data`, of the four pointers into it. -/

def matA : ℕ := 0
def matB : ℕ := 4
def lRes : ℕ := 8
def hRes : ℕ := 12

/-- `*((u32 *) pointer)` as an rvalue. -/
def loadAt (data : Buffer) (pointer : ℕ) : BitVec 32 :=
  load32 fun i => data (pointer + i)

/-- `*((u32 *) pointer) = word`. -/
def storeAt (data : Buffer) (pointer : ℕ) (word : BitVec 32) : Buffer :=
  fun i =>
    if pointer ≤ i ∧ i < pointer + 4 then bytes32 word (i - pointer) else data i

/-- The four bytes behind one of the operand pointers. -/
def operandAt (data : Buffer) (pointer : ℕ) : Operand := fun i =>
  data (pointer + i)

def matrixMultiply (data : Buffer) : Buffer :=
  let res := multiplyAccumulate (operandAt data matA) (operandAt data matB)
    (fun _ => 0)
  storeAt (storeAt data lRes (resultWord res 0)) hRes (resultWord res 2)

/-- The `WRITE` macro. -/
def write (data : Buffer) (offset : ℕ) (word : BitVec 32) : Buffer :=
  matrixMultiply (storeAt data offset word)

/-- The `READ` macro. -/
def read (data : Buffer) (offset : ℕ) : BitVec 32 := loadAt data offset

@[simp]
theorem loadAt_storeAt_same (data : Buffer) (pointer : ℕ) (word : BitVec 32) :
    loadAt (storeAt data pointer word) pointer = word := by
  rw [loadAt, ← load32_bytes32 word]
  apply load32_congr
  intro i hi
  simp [storeAt, hi]

/-- A store leaves every word that does not overlap it. -/
theorem loadAt_storeAt_of_disjoint (data : Buffer) {pointer other : ℕ}
    (word : BitVec 32) (hdisjoint : pointer + 4 ≤ other ∨ other + 4 ≤ pointer) :
    loadAt (storeAt data pointer word) other = loadAt data other := by
  apply load32_congr
  intro i hi
  simp only [storeAt]
  rw [if_neg (by omega)]

theorem operandAt_eq_of_loadAt_eq {left right : Buffer} {pointer : ℕ}
    (heq : loadAt left pointer = loadAt right pointer) :
    operandAt left pointer = operandAt right pointer := by
  funext i
  have hbyte := congrArg (fun word => bytes32 word i.val) heq
  simpa only [operandAt, loadAt, bytes32_load32 _ i.isLt] using hbyte

theorem operandAt_storeAt_same (data : Buffer) (pointer : ℕ)
    (word : BitVec 32) :
    operandAt (storeAt data pointer word) pointer =
      loadOperand (bytes32 word) := by
  funext i
  simp [operandAt, storeAt, loadOperand, i.isLt]

end Software

/-- The accesses a host program makes to either device. -/
inductive Access where
  | writeMata (x : BitVec 32)
  | writeMatb (x : BitVec 32)
  | readResLo
  | readResHi

/-- An access performed through the macros of the pure build. -/
def Software.access (data : Buffer) : Access → Buffer × Option (BitVec 32)
  | .writeMata x => (Software.write data Software.matA x, none)
  | .writeMatb x => (Software.write data Software.matB x, none)
  | .readResLo => (data, some (Software.read data Software.lRes))
  | .readResHi => (data, some (Software.read data Software.hRes))

/-- The four-byte transaction the TLM host sends.  A read is sent with whatever
the data array held before. -/
def hostPayload (command : Command) (offset : Word64) (data : Buffer) : Payload :=
  { command := command
    address := memBase + offset
    data := data
    dataLength := 4
    byteEnable := none
    byteEnableLength := 0
    llsc := none
    response := .incomplete }

/-- An access performed by TLM transactions; `stale` is what the data array of
a read held before the call. -/
def tlmAccess (stale : Buffer) (device : MatMul2x2) :
    Access → MatMul2x2 × Option (BitVec 32)
  | .writeMata x =>
      ((bTransact device (hostPayload .write mata (bytes32 x))).1, none)
  | .writeMatb x =>
      ((bTransact device (hostPayload .write matb (bytes32 x))).1, none)
  | .readResLo =>
      let answer := bTransact device (hostPayload .read resLo stale)
      (answer.1, some (load32 answer.2.data))
  | .readResHi =>
      let answer := bTransact device (hostPayload .read resHi stale)
      (answer.1, some (load32 answer.2.data))

/-- The storage holds the registers of the device: the operand bytes, and the
result rows as words. -/
structure Represents (data : Buffer) (device : MatMul2x2) : Prop where
  matA : Software.operandAt data Software.matA = device.matA
  matB : Software.operandAt data Software.matB = device.matB
  lRes : Software.loadAt data Software.lRes = resultWord device.res 0
  hRes : Software.loadAt data Software.hRes = resultWord device.res 2

theorem represents_zero_fresh : Represents (fun _ => 0) .fresh :=
  ⟨rfl, rfl, rfl, rfl⟩

/-- `matrix_multiply` leaves the operand words and puts the product rows where
the device keeps them. -/
theorem represents_matrixMultiply {data : Buffer} {matA matB : Operand}
    (hmatA : Software.operandAt data Software.matA = matA)
    (hmatB : Software.operandAt data Software.matB = matB) :
    Represents (Software.matrixMultiply data)
      { matA := matA, matB := matB
        res := multiplyAccumulate matA matB (fun _ => 0) } := by
  subst hmatA hmatB
  constructor
  · apply Software.operandAt_eq_of_loadAt_eq
    rw [Software.matrixMultiply, Software.loadAt_storeAt_of_disjoint _ _ (by decide),
      Software.loadAt_storeAt_of_disjoint _ _ (by decide)]
  · apply Software.operandAt_eq_of_loadAt_eq
    rw [Software.matrixMultiply, Software.loadAt_storeAt_of_disjoint _ _ (by decide),
      Software.loadAt_storeAt_of_disjoint _ _ (by decide)]
  · rw [Software.matrixMultiply, Software.loadAt_storeAt_of_disjoint _ _ (by decide),
      Software.loadAt_storeAt_same]
  · rw [Software.matrixMultiply, Software.loadAt_storeAt_same]

theorem bTransact_writeMata (device : MatMul2x2) (x : BitVec 32) :
    (bTransact device (hostPayload .write mata (bytes32 x))).1 =
      { matA := loadOperand (bytes32 x), matB := device.matB
        res := multiplyAccumulate (loadOperand (bytes32 x)) device.matB
          (fun _ => 0) } := by
  have hoffset : memBase + mata ^^^ memBase = mata := by decide
  simp [bTransact, hostPayload, hoffset, MatMul2x2.store]

theorem bTransact_writeMatb (device : MatMul2x2) (x : BitVec 32) :
    (bTransact device (hostPayload .write matb (bytes32 x))).1 =
      { matA := device.matA, matB := loadOperand (bytes32 x)
        res := multiplyAccumulate device.matA (loadOperand (bytes32 x))
          (fun _ => 0) } := by
  have hoffset : memBase + matb ^^^ memBase = matb := by decide
  have hne : matb ≠ mata := by decide
  simp [bTransact, hostPayload, hoffset, MatMul2x2.store, hne]

theorem represents_access (stale : Buffer) (data : Buffer) (device : MatMul2x2)
    (op : Access) (hrep : Represents data device) :
    Represents (Software.access data op).1 (tlmAccess stale device op).1 := by
  cases op with
  | writeMata x =>
      simp only [Software.access, tlmAccess, bTransact_writeMata]
      apply represents_matrixMultiply
      · exact Software.operandAt_storeAt_same data Software.matA x
      · rw [← hrep.matB]
        apply Software.operandAt_eq_of_loadAt_eq
        exact Software.loadAt_storeAt_of_disjoint _ _ (by decide)
  | writeMatb x =>
      simp only [Software.access, tlmAccess, bTransact_writeMatb]
      apply represents_matrixMultiply
      · rw [← hrep.matA]
        apply Software.operandAt_eq_of_loadAt_eq
        exact Software.loadAt_storeAt_of_disjoint _ _ (by decide)
      · exact Software.operandAt_storeAt_same data Software.matB x
  | readResLo =>
      simpa [Software.access, tlmAccess, hostPayload] using hrep
  | readResHi =>
      simpa [Software.access, tlmAccess, hostPayload] using hrep

theorem access_output_eq (stale : Buffer) (data : Buffer) (device : MatMul2x2)
    (op : Access) (hrep : Represents data device) :
    (Software.access data op).2 = (tlmAccess stale device op).2 := by
  have hresLo : memBase + resLo ^^^ memBase = resLo := by decide
  have hresHi : memBase + resHi ^^^ memBase = resHi := by decide
  have hne : resHi ≠ resLo := by decide
  cases op with
  | writeMata x => rfl
  | writeMatb x => rfl
  | readResLo =>
      simp only [Software.access, tlmAccess, bTransact, hostPayload, hresLo,
        reduceCtorEq, if_false, if_true, load32_memcpy, load32_bytes32]
      rw [Software.read, hrep.lRes]
  | readResHi =>
      simp only [Software.access, tlmAccess, bTransact, hostPayload, hresHi, hne,
        reduceCtorEq, if_false, if_true, load32_memcpy, load32_bytes32]
      rw [Software.read, hrep.hRes]

/-- The word most recently written to an operand by a list of accesses, zero
if there was none. -/
def lastMata (ops : List Access) : BitVec 32 :=
  ops.foldl (fun word op => match op with
    | .writeMata x => x
    | _ => word) 0

def lastMatb (ops : List Access) : BitVec 32 :=
  ops.foldl (fun word op => match op with
    | .writeMatb x => x
    | _ => word) 0

theorem loadAt_matrixMultiply_operand (data : Buffer) {pointer : ℕ}
    (hpointer : pointer + 4 ≤ Software.lRes) :
    Software.loadAt (Software.matrixMultiply data) pointer =
      Software.loadAt data pointer := by
  have hhRes : pointer + 4 ≤ Software.hRes := by
    simp only [Software.lRes] at hpointer
    simp only [Software.hRes]
    omega
  rw [Software.matrixMultiply,
    Software.loadAt_storeAt_of_disjoint _ _ (.inr hhRes),
    Software.loadAt_storeAt_of_disjoint _ _ (.inr hpointer)]

/-- Along a run from any storage the operand words are replaced exactly by the
writes that name them. -/
theorem run_software_operands (data : Buffer) (ops : List Access) :
    Software.loadAt (Machine.run Software.access data ops) Software.matA =
        ops.foldl (fun word op => match op with
          | .writeMata x => x
          | _ => word) (Software.loadAt data Software.matA) ∧
      Software.loadAt (Machine.run Software.access data ops) Software.matB =
        ops.foldl (fun word op => match op with
          | .writeMatb x => x
          | _ => word) (Software.loadAt data Software.matB) := by
  induction ops generalizing data with
  | nil => exact ⟨rfl, rfl⟩
  | cons op rest ih =>
      have hrest := ih (Software.access data op).1
      cases op with
      | writeMata x =>
          simp only [Software.access, Software.write] at hrest
          rw [loadAt_matrixMultiply_operand _ (by decide),
            loadAt_matrixMultiply_operand _ (by decide),
            Software.loadAt_storeAt_same,
            Software.loadAt_storeAt_of_disjoint _ _ (by decide)] at hrest
          exact hrest
      | writeMatb x =>
          simp only [Software.access, Software.write] at hrest
          rw [loadAt_matrixMultiply_operand _ (by decide),
            loadAt_matrixMultiply_operand _ (by decide),
            Software.loadAt_storeAt_same,
            Software.loadAt_storeAt_of_disjoint _ _ (by decide)] at hrest
          exact hrest
      | readResLo => exact hrest
      | readResHi => exact hrest

/-- From zeroed storage the pure build answers every sequence of accesses as
the TLM device does, and its operand words are the last ones written. -/
theorem software_agrees_with_device (stale : Buffer) (ops : List Access) :
    Machine.outputs Software.access (fun _ => 0) ops =
        Machine.outputs (tlmAccess stale) .fresh ops ∧
      Software.loadAt (Machine.run Software.access (fun _ => 0) ops)
          Software.matA = lastMata ops ∧
      Software.loadAt (Machine.run Software.access (fun _ => 0) ops)
          Software.matB = lastMatb ops := by
  refine ⟨?_, run_software_operands (fun _ => 0) ops⟩
  exact Machine.outputs_eq_of_simulation
    (represents_access stale) (access_output_eq stale) represents_zero_fresh ops

end Prazor.Matrix
