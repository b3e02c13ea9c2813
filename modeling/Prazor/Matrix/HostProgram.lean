import Prazor.Matrix.Software

/-!
# The host program

The host clears both operands, polls the two result words until their sum is zero,
and then writes the operands and reads the result words as often as it is asked to.
It is written against the accesses of a device, and so runs on the TLM device, on the
storage of the pure build, and on a device that answers from a script.
-/

namespace Prazor.Matrix

open Prazor.Tlm Prazor.Bytes

/-! ## The entries of a result -/

/-- The word that holds the elements of an operand. -/
def operandWord (operand : Operand) : BitVec 32 :=
  operand 3 ++ operand 2 ++ operand 1 ++ operand 0

/-- The `j`-th of the two 16-bit entries of a result word. -/
def entry (word : BitVec 32) (j : Fin 2) : BitVec 16 := word.extractLsb' (16 * j) 16

@[simp]
theorem loadOperand_operandWord (operand : Operand) :
    loadOperand (bytes32 (operandWord operand)) = operand := by
  let buffer : Buffer := fun i => operand (Fin.ofNat 4 i)
  have hword : operandWord operand = load32 buffer := rfl
  funext i
  rw [loadOperand, hword, bytes32_load32 buffer i.isLt]
  exact congrArg operand (Fin.ofNat_val_eq_self i)

/-- The entries of a row are those of the product modulo `2^16`. -/
theorem entry_productRow (matA matB : Operand) (i j : Fin 2) :
    entry (productRow matA matB i) j =
      BitVec.ofNat 16 ((byteMatrix matA * byteMatrix matB) i j) := by
  rw [entry, productRow]
  fin_cases j
  · exact BitVec.extractLsb'_append_eq_right
  · exact BitVec.extractLsb'_append_eq_left

/-! ## The program -/

section Program

variable {Device : Type*} (access : Device → Access → Device × Option (BitVec 32))

/-- A read of both result words. -/
def poll (device : Device) : Device × BitVec 32 × BitVec 32 :=
  let lo := access device .readResLo
  let hi := access lo.1 .readResHi
  (hi.1, lo.2.getD 0, hi.2.getD 0)

/-- Writes of both operands. -/
def writeOperands (matA matB : BitVec 32) (device : Device) : Device :=
  (access (access device (.writeMata matA)).1 (.writeMatb matB)).1

/-- `do { res = READ(RES_LO) + READ(RES_HI); } while (res != 0);` with the device it leaves
and what the last poll gave, `none` if it polls more often than `fuel` times. -/
def waitLoop : ℕ → Device → Option (Device × BitVec 32 × BitVec 32)
  | 0, _ => none
  | fuel + 1, device =>
      let polled := poll access device
      if polled.2.1 + polled.2.2 ≠ 0 then waitLoop fuel polled.1 else some polled

/-- The operands and the number of iterations. -/
structure Arguments where
  matA : BitVec 32
  matB : BitVec 32
  iters : BitVec 32

/-- The arguments of `init`, given as the numbers that `strtoul` makes of `argv[1]` and
those that follow.  Only if `argc` is 4 is there a number of iterations. -/
def parseArguments : List ℕ → Option Arguments
  | [matA, matB] | [matA, matB, _, _] => some ⟨BitVec.ofNat 32 matA, BitVec.ofNat 32 matB, 1⟩
  | [matA, matB, iters] =>
      some ⟨BitVec.ofNat 32 matA, BitVec.ofNat 32 matB, BitVec.ofNat 32 iters⟩
  | _ => none

/-- `init`. -/
def init (fuel : ℕ) (args : List ℕ) (device : Device) : Option (Arguments × Device) :=
  (parseArguments args).bind fun arguments =>
    (waitLoop access fuel (writeOperands access 0 0 device)).map fun left =>
      (arguments, left.1)

/-- The body of the loop of `main`: a write of the operands, and the result words. -/
def iteration (arguments : Arguments) (state : Device × BitVec 32 × BitVec 32) :
    Device × BitVec 32 × BitVec 32 :=
  poll access (writeOperands access arguments.matA arguments.matB state.1)

/-- `main`, with the device it leaves and the values of `lRes` and `hRes`. -/
def main (fuel : ℕ) (args : List ℕ) (device : Device) :
    Option (Device × BitVec 32 × BitVec 32) :=
  (init access fuel args device).map fun started =>
    (iteration access started.1)^[started.1.iters.toNat] (started.2, 0, 0)

/-! ## Devices that serve the product -/

/-- The rows of the product of two operands. -/
def rows (matA matB : Operand) : BitVec 32 × BitVec 32 :=
  (productRow matA matB 0, productRow matA matB 1)

/-- Whatever the device holds, a write of both operands makes it answer with the rows of
their product. -/
def ServesProduct : Prop :=
  ∀ (device : Device) (matA matB : BitVec 32),
    (poll access (writeOperands access matA matB device)).2 =
      rows (loadOperand (bytes32 matA)) (loadOperand (bytes32 matB))

variable {access}

theorem rows_zero : rows (loadOperand (bytes32 0)) (loadOperand (bytes32 0)) = (0, 0) := by
  decide

/-- A cleared device lets the wait loop go after one poll. -/
theorem waitLoop_cleared (hserves : ServesProduct access) (fuel : ℕ) (device : Device) :
    waitLoop access (fuel + 1) (writeOperands access 0 0 device) =
      some (poll access (writeOperands access 0 0 device)) := by
  have hpoll := hserves device 0 0
  rw [rows_zero] at hpoll
  rw [waitLoop, hpoll, if_neg]
  decide

/-- The program ends with the rows of the product of its operands. -/
theorem main_of_serves (hserves : ServesProduct access) (fuel : ℕ) {args : List ℕ}
    {arguments : Arguments} (hargs : parseArguments args = some arguments)
    (hiters : 1 ≤ arguments.iters.toNat) (device : Device) :
    ∃ left, main access (fuel + 1) args device = some (left,
      rows (loadOperand (bytes32 arguments.matA)) (loadOperand (bytes32 arguments.matB))) := by
  obtain ⟨n, hn⟩ := Nat.exists_eq_add_of_le' hiters
  have hinit : init access (fuel + 1) args device =
      some (arguments, (poll access (writeOperands access 0 0 device)).1) := by
    rw [init, hargs, Option.bind_some, waitLoop_cleared hserves]
    rfl
  rw [main, hinit, Option.map_some, hn, Function.iterate_succ_apply']
  exact ⟨_, congrArg some (Prod.ext rfl (hserves _ _ _))⟩

end Program

/-! ## The two devices -/

theorem poll_tlm (stale : Buffer) {device : MatMul2x2} (hdevice : device.Consistent) :
    poll (tlmAccess stale) device = (device, rows device.matA device.matB) := by
  have hlo : tlmAccess stale device .readResLo =
      (device, some (productRow device.matA device.matB 0)) := by
    simp only [tlmAccess]
    rw [bTransact_of_not_write device (by simp [hostPayload]),
      bTransact_read_resLo hdevice rfl rfl]
  have hhi : tlmAccess stale device .readResHi =
      (device, some (productRow device.matA device.matB 1)) := by
    simp only [tlmAccess]
    rw [bTransact_of_not_write device (by simp [hostPayload]),
      bTransact_read_resHi hdevice rfl rfl]
  rw [poll, hlo]
  dsimp only
  rw [hhi]
  rfl

theorem servesProduct_tlm (stale : Buffer) : ServesProduct (tlmAccess stale) := by
  intro device matA matB
  have hwritten : writeOperands (tlmAccess stale) matA matB device =
      { matA := loadOperand (bytes32 matA), matB := loadOperand (bytes32 matB)
        res := multiplyAccumulate (loadOperand (bytes32 matA)) (loadOperand (bytes32 matB))
          (fun _ => 0) } := by
    simp only [writeOperands, tlmAccess, bTransact_writeMata, bTransact_writeMatb]
  have hconsistent : (writeOperands (tlmAccess stale) matA matB device).Consistent := by
    rw [hwritten]
    rfl
  rw [poll_tlm stale hconsistent, hwritten]

/-- Any storage holds the registers of some device. -/
theorem exists_represents (data : Buffer) : ∃ device, Represents data device := by
  let res : Result := fun k =>
    if k.val < 2 then entry (Software.loadAt data Software.lRes) (Fin.ofNat 2 k)
    else entry (Software.loadAt data Software.hRes) (Fin.ofNat 2 k)
  have hword : ∀ word : BitVec 32, entry word 1 ++ entry word 0 = word := by
    intro word
    apply BitVec.eq_of_getLsbD_eq
    intro i hi
    rw [BitVec.getLsbD_append, entry, entry, BitVec.getLsbD_extractLsb',
      BitVec.getLsbD_extractLsb']
    split_ifs with hlow
    · simp [hlow]
    · have habove : i - 16 < 16 := by omega
      rw [decide_eq_true habove, Bool.true_and]
      congr 1
      simp only [Fin.val_one]
      omega
  exact ⟨⟨Software.operandAt data Software.matA, Software.operandAt data Software.matB, res⟩,
    rfl, rfl, (hword _).symm, (hword _).symm⟩

theorem servesProduct_software : ServesProduct Software.access := by
  intro data matA matB
  obtain ⟨device, hdevice⟩ := exists_represents data
  let stale : Buffer := fun _ => 0
  have hwritten : Represents (writeOperands Software.access matA matB data)
      (writeOperands (tlmAccess stale) matA matB device) :=
    represents_access stale _ _ _ (represents_access stale _ _ _ hdevice)
  have hlo := access_output_eq stale _ _ .readResLo hwritten
  have hrest := represents_access stale _ _ .readResLo hwritten
  have hhi := access_output_eq stale _ _ .readResHi hrest
  rw [← servesProduct_tlm stale device matA matB]
  simp only [poll]
  rw [hlo, hhi]

/-! ## What is read after a write of both operands -/

section Entries

variable {Device : Type*} (access : Device → Access → Device × Option (BitVec 32))

/-- The word of a row. -/
def resultRow (words : BitVec 32 × BitVec 32) (i : Fin 2) : BitVec 32 :=
  if i = 0 then words.1 else words.2

/-- The entry in row `i` and column `j` that is read after a write of both operands. -/
def entryRead (device : Device) (matA matB : Operand) (i j : Fin 2) : BitVec 16 :=
  entry (resultRow (poll access
    (writeOperands access (operandWord matA) (operandWord matB) device)).2 i) j

variable {access}

theorem entryRead_of_serves (hserves : ServesProduct access) (device : Device)
    (matA matB : Operand) (i j : Fin 2) :
    entryRead access device matA matB i j =
      BitVec.ofNat 16 ((byteMatrix matA * byteMatrix matB) i j) := by
  have hword : resultRow (rows matA matB) i = productRow matA matB i := by
    fin_cases i <;> rfl
  rw [entryRead, hserves, loadOperand_operandWord, loadOperand_operandWord, hword,
    entry_productRow]

end Entries

/-- The entries that either device gives are those of the integer product modulo `2^16`,
and so equal them exactly when these have sixteen bits. -/
theorem result_entries (stale : Buffer) (device : MatMul2x2) (data : Buffer)
    (matA matB : Operand) (i j : Fin 2) :
    let product := (byteMatrix matA * byteMatrix matB) i j
    (entryRead (tlmAccess stale) device matA matB i j).toNat = product % 2 ^ 16 ∧
      (entryRead Software.access data matA matB i j).toNat = product % 2 ^ 16 ∧
      (product % 2 ^ 16 = product ↔ product < 2 ^ 16) := by
  intro product
  rw [entryRead_of_serves (servesProduct_tlm stale), entryRead_of_serves servesProduct_software]
  refine ⟨BitVec.toNat_ofNat _ _, BitVec.toNat_ofNat _ _, fun hsame => ?_, Nat.mod_eq_of_lt⟩
  rw [← hsame]
  exact Nat.mod_lt product (by norm_num)

/-- The square of the matrix of four elements 255 has entries of seventeen bits. -/
theorem not_result_entries_exact :
    ¬∀ (stale : Buffer) (device : MatMul2x2) (data : Buffer) (matA matB : Operand)
      (i j : Fin 2),
      (entryRead (tlmAccess stale) device matA matB i j).toNat =
          (byteMatrix matA * byteMatrix matB) i j ∧
        (entryRead Software.access data matA matB i j).toNat =
          (byteMatrix matA * byteMatrix matB) i j := by
  intro hclaim
  have hentry := (hclaim (fun _ => 0) .fresh (fun _ => 0) (fun _ => 255) (fun _ => 255) 0 0).1
  rw [entryRead_of_serves (servesProduct_tlm _)] at hentry
  revert hentry
  decide

/-! ## Waiting for the results to clear -/

/-- All four entries are zero. -/
def AllZero (words : BitVec 32 × BitVec 32) : Prop :=
  ∀ j, entry words.1 j = 0 ∧ entry words.2 j = 0

/-- A device that answers the polls with the words of a sequence. -/
def scripted (words : ℕ → BitVec 32 × BitVec 32) (n : ℕ) : Access → ℕ × Option (BitVec 32)
  | .readResLo => (n, some (words n).1)
  | .readResHi => (n + 1, some (words n).2)
  | .writeMata _ | .writeMatb _ => (n, none)

/-- If the wait loop ends, the last poll has found all entries zero. -/
def LeavesCleared (words : ℕ → BitVec 32 × BitVec 32) : Prop :=
  ∀ fuel left, waitLoop (scripted words) fuel 0 = some left → AllZero left.2

/-- A poll whose words have the sum zero, but are not zero, comes after one that finds
all entries zero. -/
def NoFalseClear (words : ℕ → BitVec 32 × BitVec 32) : Prop :=
  ∀ k, (words k).1 + (words k).2 = 0 → ¬AllZero (words k) → ∃ j < k, AllZero (words j)

theorem allZero_iff (words : BitVec 32 × BitVec 32) : AllZero words ↔ words = (0, 0) := by
  have hword : ∀ word : BitVec 32, (∀ j, entry word j = 0) → word = 0 := by
    intro word hentries
    apply BitVec.eq_of_getLsbD_eq
    intro i hi
    have hbit := congrArg (fun half => half.getLsbD (i % 16))
      (hentries (Fin.ofNat 2 (i / 16)))
    simp only [entry, BitVec.getLsbD_extractLsb', Fin.val_ofNat,
      Nat.mod_eq_of_lt (by omega : i / 16 < 2), Nat.div_add_mod,
      Nat.mod_lt i (by norm_num : 16 > 0), decide_true, Bool.true_and] at hbit
    rw [hbit]
    exact BitVec.getLsbD_zero.trans BitVec.getLsbD_zero.symm
  constructor
  · intro hzero
    exact Prod.ext (hword _ fun j => (hzero j).1) (hword _ fun j => (hzero j).2)
  · rintro rfl j
    exact ⟨BitVec.extractLsb'_zero, BitVec.extractLsb'_zero⟩

/-- The wait loop ends at the first poll whose words have the sum zero. -/
theorem waitLoop_scripted (words : ℕ → BitVec 32 × BitVec 32) (fuel n : ℕ)
    {left : ℕ × BitVec 32 × BitVec 32} :
    waitLoop (scripted words) fuel n = some left ↔
      ∃ k, n ≤ k ∧ k < n + fuel ∧ left = (k + 1, words k) ∧ (words k).1 + (words k).2 = 0 ∧
        ∀ j, n ≤ j → j < k → (words j).1 + (words j).2 ≠ 0 := by
  induction fuel generalizing n with
  | zero =>
      refine ⟨(fun h => nomatch h), ?_⟩
      rintro ⟨k, hle, hlt, -⟩
      omega
  | succ fuel ih =>
      have hpoll : poll (scripted words) n = (n + 1, words n) := rfl
      rw [waitLoop, hpoll]
      dsimp only
      by_cases hzero : (words n).1 + (words n).2 = 0
      · rw [if_neg (not_not.mpr hzero), Option.some.injEq, eq_comm]
        constructor
        · rintro rfl
          exact ⟨n, le_refl n, by omega, rfl, hzero, fun j hle hlt => by omega⟩
        · rintro ⟨k, hle, -, rfl, -, hfirst⟩
          obtain rfl | hlt := Nat.eq_or_lt_of_le hle
          · rfl
          · exact absurd hzero (hfirst n (le_refl n) hlt)
      · rw [if_pos hzero, ih]
        constructor
        · rintro ⟨k, hle, hlt, rfl, hsum, hfirst⟩
          refine ⟨k, by omega, by omega, rfl, hsum, fun j hj hjk => ?_⟩
          obtain rfl | hnext := Nat.eq_or_lt_of_le hj
          · exact hzero
          · exact hfirst j hnext hjk
        · rintro ⟨k, hle, hlt, rfl, hsum, hfirst⟩
          have hne : n ≠ k := by
            rintro rfl
            exact hzero hsum
          exact ⟨k, by omega, by omega, rfl, hsum, fun j hj hjk => hfirst j (by omega) hjk⟩

/-- The wait loop leaves only after it has seen all entries zero exactly if no poll before
that gives words that are not zero but have the sum zero. -/
theorem leavesCleared_iff (words : ℕ → BitVec 32 × BitVec 32) :
    LeavesCleared words ↔ NoFalseClear words := by
  constructor
  · intro hleaves k hsum hnonzero
    classical
    let first := Nat.find (⟨k, hsum⟩ : ∃ k, (words k).1 + (words k).2 = 0)
    have hfirst := Nat.find_spec (⟨k, hsum⟩ : ∃ k, (words k).1 + (words k).2 = 0)
    have hle : first ≤ k := Nat.find_min' _ hsum
    have hrun : waitLoop (scripted words) (first + 1) 0 = some (first + 1, words first) := by
      rw [waitLoop_scripted]
      exact ⟨first, Nat.zero_le first, by omega, rfl, hfirst, fun j _ hj => Nat.find_min _ hj⟩
    have hcleared := hleaves _ _ hrun
    refine ⟨first, lt_of_le_of_ne hle ?_, hcleared⟩
    intro hsame
    rw [hsame] at hcleared
    exact hnonzero hcleared
  · intro hclear fuel left hrun
    rw [waitLoop_scripted] at hrun
    obtain ⟨k, -, -, rfl, hsum, hfirst⟩ := hrun
    by_contra hnonzero
    obtain ⟨j, hlt, hzero⟩ := hclear k hsum hnonzero
    refine hfirst j (Nat.zero_le j) hlt ?_
    rw [(allZero_iff _).mp hzero]
    rfl

/-- The host waits until the results have cleared exactly if the device gives no words that
only seem to be cleared, and it ends with the rows of the product of its two operands
on either device, whatever the device held. -/
theorem host_handshake (words : ℕ → BitVec 32 × BitVec 32) (stale : Buffer)
    (device : MatMul2x2) (data : Buffer) (fuel : ℕ) (args : List ℕ) (arguments : Arguments)
    (hargs : parseArguments args = some arguments) (hiters : 1 ≤ arguments.iters.toNat) :
    (LeavesCleared words ↔ NoFalseClear words) ∧
      (∃ left, main (tlmAccess stale) (fuel + 1) args device = some (left,
        rows (loadOperand (bytes32 arguments.matA)) (loadOperand (bytes32 arguments.matB)))) ∧
      ∃ left, main Software.access (fuel + 1) args data = some (left,
        rows (loadOperand (bytes32 arguments.matA)) (loadOperand (bytes32 arguments.matB))) :=
  ⟨leavesCleared_iff words, main_of_serves (servesProduct_tlm stale) fuel hargs hiters device,
    main_of_serves servesProduct_software fuel hargs hiters data⟩

/-- The program with its operands only, which does one iteration. -/
theorem host_handshake_once :
    ∃ left, main (tlmAccess fun _ => 0) (0 + 1) [0x01000001, 0x04030201] .fresh = some (left,
      rows (loadOperand (bytes32 0x01000001)) (loadOperand (bytes32 0x04030201))) := by
  let arguments : Arguments := ⟨0x01000001, 0x04030201, 1⟩
  have hargs : parseArguments [0x01000001, 0x04030201] = some arguments := rfl
  have hiters : 1 ≤ arguments.iters.toNat := by decide
  exact (host_handshake (fun _ => 0) (fun _ => 0) .fresh (fun _ => 0) 0 _ arguments hargs
    hiters).2.1

/-- The words one and `2^32 - 1` pass for cleared results. -/
theorem not_leavesCleared : ¬∀ words, LeavesCleared words := by
  intro hclaim
  let words : ℕ → BitVec 32 × BitVec 32 := fun k => if k = 0 then (1, 0xFFFFFFFF) else (0, 0)
  have hrun : waitLoop (scripted words) 1 0 = some (1, 1, 0xFFFFFFFF) := by
    decide
  have hzero := (allZero_iff _).mp (hclaim words 1 _ hrun)
  revert hzero
  decide

end Prazor.Matrix
