import Prazor.Bus.CpuBusaccess
import Prazor.Matrix.Software

/-!
# The multiplier behind a simulated CPU

A CPU store to `MEM_BASE + MATB` leaves the bus access unit as a doubleword
write of `MEM_BASE` whose byte enables choose the upper half.  The device
decodes the exact address and does not look at the enables, so the word lands
in `MATA`.  This file follows that mismatch through whole programs and states
exactly which programs see the device they were written for.
-/

namespace Prazor.Matrix

open Prazor.Tlm Prazor.Bytes Prazor.Bus

/-- An access performed by the CPU: 32-bit stores and loads with `ENDIAN_FLIP`
zero, delivered unchanged to the device.  `stale` is what the local variable of
a load holds before the transaction. -/
def cpuAccess (stale : Word64) (device : MatMul2x2) :
    Access → MatMul2x2 × Option (BitVec 32)
  | .writeMata x => ((bTransact device (setMem32 0 (memBase + mata) x)).1, none)
  | .writeMatb x => ((bTransact device (setMem32 0 (memBase + matb) x)).1, none)
  | .readResLo => evalMem32 0 bTransact device (memBase + resLo) stale
  | .readResHi => evalMem32 0 bTransact device (memBase + resHi) stale

/-- The words last stored to the two operands of the device. -/
structure StoredWords where
  mata : BitVec 32
  matb : BitVec 32

/-- Row `i` of the product of the matrices two stored words denote. -/
def StoredWords.row (words : StoredWords) (i : Fin 2) : BitVec 32 :=
  productRow (loadOperand (bytes32 words.mata))
    (loadOperand (bytes32 words.matb)) i

/-- What the device protocol defines for an access. -/
def protocolAccess (words : StoredWords) :
    Access → StoredWords × Option (BitVec 32)
  | .writeMata x => ({ words with mata := x }, none)
  | .writeMatb x => ({ words with matb := x }, none)
  | .readResLo => (words, some (words.row 0))
  | .readResHi => (words, some (words.row 1))

/-- One access leaves the operand it does not store to. -/
def KeepsOther (before after : MatMul2x2) : Access → Prop
  | .writeMata _ => after.matB = before.matB
  | .writeMatb _ => after.matA = before.matA
  | _ => True

/-- Along a run every store leaves the other operand. -/
def StoresSeparately (stale : Word64) : MatMul2x2 → List Access → Prop
  | _, [] => True
  | device, op :: rest =>
      KeepsOther device (cpuAccess stale device op).1 op ∧
        StoresSeparately stale (cpuAccess stale device op).1 rest

/-- The programs the mismatch does not reach.  `words` are the words last
stored to each operand and `latest` the one last stored to either. -/
def Unaffected : StoredWords → BitVec 32 → List Access → Prop
  | _, _, [] => True
  | words, _, .writeMata x :: rest => Unaffected { words with mata := x } x rest
  | words, latest, .writeMatb x :: rest =>
      x = latest ∧ Unaffected { words with matb := x } x rest
  | words, latest, .readResLo :: rest =>
      words.row 0 = 0 ∧ Unaffected words latest rest
  | words, latest, .readResHi :: rest =>
      words.row 1 = 0 ∧ Unaffected words latest rest

/-! ## What one access does -/

theorem loadOperand_congr {left right : Buffer} (heq : load32 left = load32 right) :
    loadOperand left = loadOperand right := by
  funext i
  have hbyte := congrArg (fun word => bytes32 word i.val) heq
  simpa only [loadOperand, bytes32_load32 _ i.isLt] using hbyte

theorem loadOperand_bytes32_injective {x y : BitVec 32}
    (heq : loadOperand (bytes32 x) = loadOperand (bytes32 y)) : x = y := by
  rw [← load32_bytes32 x, ← load32_bytes32 y]
  apply load32_congr
  intro i hi
  exact congrFun heq ⟨i, hi⟩

/-- Both operand addresses become the same bus address. -/
theorem setMem32_address_mata (x : BitVec 32) :
    (setMem32 0 (memBase + mata) x).address = memBase := by
  show (memBase + mata) &&& ~~~4 = memBase
  decide

theorem setMem32_address_matb (x : BitVec 32) :
    (setMem32 0 (memBase + matb) x).address = memBase := by
  show (memBase + matb) &&& ~~~4 = memBase
  decide

/-- A CPU store arrives at the first operand, whatever it was addressed to. -/
theorem bTransact_setMem32 (device : MatMul2x2) {memaddr : Word64}
    {x : BitVec 32} (haddress : (setMem32 0 memaddr x).address = memBase) :
    (bTransact device (setMem32 0 memaddr x)).1 =
      { matA := loadOperand (bytes32 x), matB := device.matB
        res := multiplyAccumulate (loadOperand (bytes32 x)) device.matB
          (fun _ => 0) } := by
  have hoffset : (setMem32 0 memaddr x).address ^^^ memBase = mata := by
    rw [haddress]; decide
  have hcommand : (setMem32 0 memaddr x).command = .write := rfl
  have hdata : loadOperand (setMem32 0 memaddr x).data = loadOperand (bytes32 x) :=
    loadOperand_congr (by rw [load32_setMem32, load32_bytes32])
  simp only [bTransact, hcommand, if_true, hoffset, MatMul2x2.store, hdata]

/-- The device a CPU sees after storing `latest` last: the second operand has
never been written. -/
def cpuView (latest : BitVec 32) : MatMul2x2 :=
  { matA := loadOperand (bytes32 latest), matB := fun _ => 0
    res := multiplyAccumulate (loadOperand (bytes32 latest)) (fun _ => 0)
      (fun _ => 0) }

theorem fresh_eq_cpuView : MatMul2x2.fresh = cpuView 0 := by
  have hzero : loadOperand (bytes32 0) = fun _ => 0 := by
    funext i
    simp [loadOperand, bytes32]
  rw [cpuView, hzero]
  exact congrArg (fun res => MatMul2x2.mk _ _ res) consistent_fresh

/-- A load of either result row returns zero, because one factor is zero. -/
theorem productRow_zero_right (matA : Operand) (i : Fin 2) :
    productRow matA (fun _ => 0) i = 0 := by
  have hzero : byteMatrix (fun _ => 0) = 0 := by
    funext i j
    simp [byteMatrix]
  rw [productRow, hzero, Matrix.mul_zero]
  simp

theorem evalMem32_bTransact (stale : Word64) (device : MatMul2x2)
    {offset : Word64} (huncached : uncachedAddressSpace64 (memBase + offset) = true)
    (haligned : ((memBase + offset) &&& ~~~3) ^^^ BitVec.ofNat 64 (0 &&& 4) =
      memBase + offset) :
    let answer := bTransact device (memRead (memBase + offset) 2 stale)
    evalMem32 0 bTransact device (memBase + offset) stale =
      (answer.1,
        if answer.2.response = .ok then some (load32 answer.2.data) else none) := by
  simp only [evalMem32, huncached, if_true, haligned, setWidth_load64]

theorem response_bTransact (device : MatMul2x2) (trans : Payload) :
    (bTransact device trans).2.response = .ok := by
  simp only [bTransact]
  split
  · rfl
  · split
    · rfl
    · split <;> rfl

theorem cpuAccess_cpuView_readResLo (stale : Word64) (latest : BitVec 32) :
    cpuAccess stale (cpuView latest) .readResLo = (cpuView latest, some 0) := by
  have hconsistent : (cpuView latest).Consistent := rfl
  rw [cpuAccess, evalMem32_bTransact stale _ (by decide) (by decide),
    if_pos (response_bTransact _ _), bTransact_read_resLo hconsistent rfl rfl,
    bTransact_of_not_write _ (by simp [memRead])]
  exact congrArg (fun word => (cpuView latest, some word))
    (productRow_zero_right _ 0)

theorem cpuAccess_cpuView_readResHi (stale : Word64) (latest : BitVec 32) :
    cpuAccess stale (cpuView latest) .readResHi = (cpuView latest, some 0) := by
  have hconsistent : (cpuView latest).Consistent := rfl
  rw [cpuAccess, evalMem32_bTransact stale _ (by decide) (by decide),
    if_pos (response_bTransact _ _), bTransact_read_resHi hconsistent rfl rfl,
    bTransact_of_not_write _ (by simp [memRead])]
  exact congrArg (fun word => (cpuView latest, some word))
    (productRow_zero_right _ 1)

theorem cpuAccess_cpuView_writeMata (stale : Word64) (latest x : BitVec 32) :
    cpuAccess stale (cpuView latest) (.writeMata x) = (cpuView x, none) := by
  rw [cpuAccess, bTransact_setMem32 _ (setMem32_address_mata x)]
  rfl

theorem cpuAccess_cpuView_writeMatb (stale : Word64) (latest x : BitVec 32) :
    cpuAccess stale (cpuView latest) (.writeMatb x) = (cpuView x, none) := by
  rw [cpuAccess, bTransact_setMem32 _ (setMem32_address_matb x)]
  rfl

theorem cpuView_matA_eq_iff (x y : BitVec 32) :
    (cpuView x).matA = (cpuView y).matA ↔ x = y :=
  ⟨loadOperand_bytes32_injective, fun h => by rw [h]⟩

/-! ## Whole programs -/

/-- From any point of a program: the rest of it sees the device it was written
for exactly when the mismatch does not reach it. -/
theorem cpuView_run_iff (stale : Word64) (words : StoredWords)
    (latest : BitVec 32) (ops : List Access) :
    (Machine.outputs (cpuAccess stale) (cpuView latest) ops =
          Machine.outputs protocolAccess words ops ∧
        StoresSeparately stale (cpuView latest) ops) ↔
      Unaffected words latest ops := by
  induction ops generalizing words latest with
  | nil => simp [StoresSeparately, Unaffected]
  | cons op rest ih =>
      cases op with
      | writeMata x =>
          simp only [Machine.outputs_cons, cpuAccess_cpuView_writeMata,
            protocolAccess, StoresSeparately, KeepsOther, Unaffected,
            List.cons.injEq, true_and]
          rw [← ih]
          simp [cpuView]
      | writeMatb x =>
          simp only [Machine.outputs_cons, cpuAccess_cpuView_writeMatb,
            protocolAccess, StoresSeparately, KeepsOther, Unaffected,
            List.cons.injEq, true_and, cpuView_matA_eq_iff]
          rw [← ih]
          exact and_left_comm
      | readResLo =>
          simp only [Machine.outputs_cons, cpuAccess_cpuView_readResLo,
            protocolAccess, StoresSeparately, KeepsOther, Unaffected,
            List.cons.injEq, true_and, Option.some.injEq]
          rw [← ih, and_assoc, eq_comm (a := (0 : BitVec 32))]
      | readResHi =>
          simp only [Machine.outputs_cons, cpuAccess_cpuView_readResHi,
            protocolAccess, StoresSeparately, KeepsOther, Unaffected,
            List.cons.injEq, true_and, Option.some.injEq]
          rw [← ih, and_assoc, eq_comm (a := (0 : BitVec 32))]

/-- A program driving a fresh device through the CPU gets the words the device
protocol defines, and none of its stores disturbs the other operand, exactly
when every store to `MATB` repeats the word stored last and every row it loads
is zero anyway. -/
theorem cpu_serves_protocol_iff (stale : Word64) (ops : List Access) :
    (Machine.outputs (cpuAccess stale) .fresh ops =
          Machine.outputs protocolAccess ⟨0, 0⟩ ops ∧
        StoresSeparately stale .fresh ops) ↔
      Unaffected ⟨0, 0⟩ 0 ops := by
  rw [fresh_eq_cpuView]
  exact cpuView_run_iff stale ⟨0, 0⟩ 0 ops

/-- The shortest program of this kind: both operands stored, then a row loaded.
The load returns zero instead of the row, and the second store has replaced the
first operand. -/
theorem cpu_misses_protocol :
    let program : List Access :=
      [.writeMata 0x01000001, .writeMatb 0x04030201, .readResLo]
    Machine.outputs (cpuAccess 0) .fresh program ≠
        Machine.outputs protocolAccess ⟨0, 0⟩ program ∧
      ¬StoresSeparately 0 .fresh program := by
  intro program
  have hrow : ¬(0 : BitVec 32) = StoredWords.row ⟨0x01000001, 0x04030201⟩ 0 := by
    decide
  rw [fresh_eq_cpuView]
  constructor
  · simpa [program, cpuAccess_cpuView_writeMata, cpuAccess_cpuView_writeMatb,
      cpuAccess_cpuView_readResLo, protocolAccess] using hrow
  · simp [program, StoresSeparately, KeepsOther, cpuAccess_cpuView_writeMata,
      cpuAccess_cpuView_writeMatb, cpuView_matA_eq_iff]

end Prazor.Matrix
