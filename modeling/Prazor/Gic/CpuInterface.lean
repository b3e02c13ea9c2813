import Prazor.Core.Guarded
import Prazor.Gic.Distributor

/-!
# The CPU interfaces of the interrupt controller

A CPU acknowledges and ends interrupts through its interface.  The inputs of the
controller change its words, and `distribute` runs some time after each change:
the events of a run come in any order.
-/

namespace Prazor.Gic

variable (nCpus : ℕ)

/-- The software interrupts that have a source. -/
def sgiFlags (gic : GicArmTlm) (cpuID : ℕ) : Word :=
  (List.range 16).foldl
    (fun flags no =>
      if (gic.word (sgiPlace cpuID no) >>> sgiShift no) &&& 0xFF ≠ 0 then
        flags ||| (1 : Word) <<< no
      else flags) 0

/-- `read_requesting_disjunction`. -/
def readRequestingDisjunction (gic : GicArmTlm) (sgi : Fin 32) (cpuID : ℕ) : Word :=
  if sgi = 0 then
    sgiFlags gic cpuID ||| gic.word (.cpustate cpuID .actives) |||
      gic.word (.cpustate cpuID .unmasked)
  else gic.word (.diststate (.unmasked sgi)) ||| gic.word (.diststate (.actives sgi))

/-- `lopri` and `leader` for each group and CPU. -/
abbrev Leaders := Fin 2 → ℕ → Option (ℕ × ℕ)

/-- The body of the loop over the bits in `distribute`. -/
def consider (gic : GicArmTlm) (cpuID : ℕ) (leaders : Leaders) (no : ℕ) : Leaders :=
  -- shared interrupts below 96 go to the first CPU
  if 32 ≤ no ∧ no ≤ 95 ∧ cpuID ≠ 0 then leaders
  else
    let pri := ((readDist nCpus gic (0x400 + no / 4 * 4) cpuID >>> (no % 4 * 8)) &&& 0xFF).toNat
    let grp : Fin 2 :=
      if (readDist nCpus gic (0x080 + no / 32 * 4) cpuID).getLsbD (no % 32) then 1 else 0
    let grpEnabled := if grp = 1 then gic.enableGrp1 else gic.enableGrp0
    let cpuEnabled := (gic.word (.cpustate cpuID .ctl)).getLsbD grp
    if cpuEnabled ∧ grpEnabled ∧ (leaders grp cpuID).all fun leader => pri < leader.1 then
      Function.update leaders grp (Function.update (leaders grp) cpuID (some (pri, no)))
    else leaders

/-- A turn of the main loop of `distribute`. -/
def considerAll (gic : GicArmTlm) (sgi : Fin 32) (leaders : Leaders) (cpuID : ℕ) : Leaders :=
  let req := readRequestingDisjunction gic sgi cpuID &&&
    readDist nCpus gic (0x100 + sgi * 4) cpuID
  (List.range 32).foldl
    (fun leaders bit =>
      if req.getLsbD bit then consider nCpus gic cpuID leaders (sgi * 32 + bit) else leaders)
    leaders

/-- The leaders that `distribute` finds. -/
def elect (gic : GicArmTlm) : Leaders :=
  (List.finRange 32).foldl
    (fun leaders sgi => (List.range nCpus).foldl (considerAll nCpus gic sgi) leaders)
    fun _ _ => none

/-- Telling a CPU the leader of a group. -/
def tellGroup (leaders : Leaders) (n : ℕ) (gic : GicArmTlm) (g : Fin 2) : GicArmTlm :=
  match leaders g n with
  | some (pri, no) =>
      (gic.modify (.cpustate n (.rp g)) fun _ => BitVec.ofNat 32 pri).modify
        (.cpustate n (.ia g)) fun _ => BitVec.ofNat 32 no
  | none => gic.modify (.cpustate n (.ia g)) fun _ => 0x3FF

/-- Driving the outputs of a CPU.  `FIQEn` is bit 8 of the first CPU's control
register: the loop variable has come back to the first CPU, and the mask 8 is
taken for the number of a bit. -/
def driveOutputs (leaders : Leaders) (gic : GicArmTlm) (n : ℕ) : GicArmTlm :=
  let fiqEn := (gic.word (.cpustate 0 .ctl)).getLsbD 8
  let gic := [0, 1].foldl (tellGroup leaders n) gic
  { gic with
    irqOut := Function.update gic.irqOut n
      (((leaders 0 n).isSome && !fiqEn) || (leaders 1 n).isSome)
    fiqOut := Function.update gic.fiqOut n ((leaders 0 n).isSome && fiqEn) }

/-- `distribute`. -/
def distribute (gic : GicArmTlm) : GicArmTlm :=
  (List.range nCpus).foldl (driveOutputs (elect nCpus gic)) gic

/-- `new_spi_word32` for one of the words of shared inputs. -/
def newSpiWord32 (gic : GicArmTlm) (word : Fin 32) (data : Word) : GicArmTlm :=
  gic.modify (.diststate (.unmasked word)) fun _ => data

/-- `ppi_changed`, with the five inputs of each CPU. -/
def ppiChanged (gic : GicArmTlm) (inputs : ℕ → BitVec 5) : GicArmTlm :=
  (List.range nCpus).foldl
    (fun gic n => gic.modify (.cpustate n .unmasked) fun unmasked =>
      (unmasked &&& 0xFFFF) ||| (inputs n).setWidth 32 <<< 27) gic

/-- The source that is acknowledged: the first one, or `n_cpus` if there is none. -/
def firstSource (srcBitfield : BitVec 8) : ℕ :=
  ((List.range nCpus).find? fun srcCpu => srcBitfield.getLsbD srcCpu).getD nCpus

/-- The sources of a software interrupt. -/
def srcBitfield (gic : GicArmTlm) (cpuID no : ℕ) : BitVec 8 :=
  ((gic.word (sgiPlace cpuID no) >>> sgiShift no) &&& 0xFF).setWidth 8

/-- The first part of `notify_int_acknowledge`: the request is taken back, from the
source that is returned. -/
def takeRequest (gic : GicArmTlm) (pendID cpuID : ℕ) : Option (GicArmTlm × ℕ) :=
  let bit := (1 : Word) <<< (pendID % 32)
  if pendID < 16 then
    let srcCpu := firstSource nCpus (srcBitfield gic cpuID pendID)
    (clearSgi nCpus gic pendID cpuID srcCpu).map fun gic => (gic, srcCpu)
  else if pendID < 32 then
    some (gic.modify (.cpustate cpuID .unmasked) (· &&& ~~~bit), 0)
  else if pendID < 1021 then
    some (gic.modify (.diststate (.unmasked (Fin.ofNat 32 (pendID / 32)))) (· &&& ~~~bit), 0)
  else some (gic, 0)

/-- `notify_int_acknowledge`. -/
def notifyIntAcknowledge (gic : GicArmTlm) (grp : Fin 2) (cpuID : ℕ) :
    Option (GicArmTlm × Word) :=
  let pendID := gic.word (.cpustate cpuID (.ia grp))
  -- a negative number shifts by a negative number of bits
  if pendID.msb then none
  else
    let bit := (1 : Word) <<< (pendID.toNat % 32)
    let nn := pendID.toNat / 32
    (takeRequest nCpus gic pendID.toNat cpuID).bind fun taken =>
      (writeThrough nCpus taken.1 (0x280 + nn * 4) cpuID (· &&& bit)).bind fun gic =>
        (writeThrough nCpus gic (0x300 + nn * 4) cpuID (· ||| bit)).map fun gic =>
          (gic, pendID ||| BitVec.ofNat 32 taken.2 <<< 10)

/-- The number of the interrupt in a write of `GICC_EOIR`. -/
def eoiNumber (data : Word) : ℕ := (data &&& 1023).toNat

/-- `notify_end_of_int`. -/
def notifyEndOfInt (gic : GicArmTlm) (cpuID : ℕ) (data : Word) : Option GicArmTlm :=
  let bit := (1 : Word) <<< (eoiNumber data % 32)
  writeThrough nCpus gic (0x380 + eoiNumber data / 32 * 4) cpuID (· &&& ~~~bit)

/-- `cpu_addresser`. -/
def cpuAddresser (reg cpuID : ℕ) : Option Place :=
  match reg with
  | 0x00 => some (.cpustate cpuID .ctl)
  | 0x04 => some (.cpustate cpuID .pm)
  | 0x08 => some (.cpustate cpuID (.bp 0))
  | 0x0c => some (.cpustate cpuID (.ia 0))
  | 0x14 => some (.cpustate cpuID (.rp 0))
  | 0x1c => some (.cpustate cpuID (.bp 1))
  | 0x20 => some (.cpustate cpuID (.ia 1))
  | 0x28 => some (.cpustate cpuID (.rp 1))
  | _ => none

/-- `ReadCPU`. -/
def readCpu (gic : GicArmTlm) (reg cpuID : ℕ) : Option (GicArmTlm × Word) :=
  if reg = 0x0c then notifyIntAcknowledge nCpus gic 0 cpuID
  else if reg = 0x20 then notifyIntAcknowledge nCpus gic 1 cpuID
  else some (gic, ((cpuAddresser reg cpuID).map gic.word).getD undefinedData)

/-- `WriteCPU`. -/
def writeCpu (gic : GicArmTlm) (reg cpuID : ℕ) (data : Word) : Option GicArmTlm :=
  if reg = 0x10 ∨ reg = 0x24 then notifyEndOfInt nCpus gic cpuID data
  else some (((cpuAddresser reg cpuID).map fun place => gic.modify place fun _ => data).getD gic)

/-! ## Runs -/

/-- What happens to the controller: its method runs, its inputs change, or a CPU
reads or writes a register. -/
inductive Event where
  | distribute
  | spi (word : Fin 32) (data : Word)
  | ppi (inputs : ℕ → BitVec 5)
  | readDist (reg cpuID : ℕ)
  | writeDist (reg cpuID : ℕ) (data : Word)
  | readCpu (reg cpuID : ℕ)
  | writeCpu (reg cpuID : ℕ) (data : Word)

/-- An event and the data it gives; `b_access` refuses a CPU it has no file for. -/
def step (gic : GicArmTlm) : Event → Option (GicArmTlm × Word)
  | .distribute => some (distribute nCpus gic, 0)
  | .spi word data => if word ∈ [1, 2, 3] then some (newSpiWord32 gic word data, 0) else none
  | .ppi inputs => some (ppiChanged nCpus gic inputs, 0)
  | .readDist reg cpuID =>
      if cpuID < nCpus then some (gic, readDist nCpus gic reg cpuID) else none
  | .writeDist reg cpuID data =>
      if cpuID < nCpus then (writeDist nCpus gic reg data cpuID).map fun gic => (gic, 0)
      else none
  | .readCpu reg cpuID => if cpuID < nCpus then readCpu nCpus gic reg cpuID else none
  | .writeCpu reg cpuID data =>
      if cpuID < nCpus then (writeCpu nCpus gic reg cpuID data).map fun gic => (gic, 0)
      else none

/-- The constructor, which leaves some members as they are. -/
def constructed (left : GicArmTlm) : GicArmTlm :=
  { left with
    word := fun place =>
      match place with
      | .diststate (.targets _) | .diststate (.enables _) | .diststate (.pendings _)
      | .diststate (.actives _) | .diststate (.unmasked _) => 0
      | .diststate field => left.word (.diststate field)
      | .cpustate n field =>
          if n < nCpus then
            match field with
            | .targets _ => (0x01010101 : Word) <<< (n % 8)
            | .ctl => 0
            | .pm => 1023
            | .sgiMatrix _ => 0
            | _ => left.word (.cpustate n field)
          else left.word (.cpustate n field) }

/-- The controller when its CPUs start: the kernel has run its method once. -/
def started (left : GicArmTlm) : GicArmTlm := distribute nCpus (constructed nCpus left)

end Prazor.Gic
