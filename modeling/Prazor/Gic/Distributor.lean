import Prazor.Core.ArraySizes

/-!
# The distributor of the interrupt controller

`gic_arm_tlm` keeps one register file for each CPU and one that all share.  Its
distributor registers are words of these files, found by `dist_addresser`.  The
words are the state here; a pointer to a word is its place.  `none` is a failed
assertion, or a shift by a number of bits that the word does not have.
-/

namespace Prazor.Gic

abbrev Word := BitVec 32

/-- `per_cpu_file_base`, word by word. -/
inductive CpuFile where
  | ctl
  | pm
  | bp (grp : Fin 2)
  | ia (grp : Fin 2)
  | rp (grp : Fin 2)
  | unmasked
  | igroup
  | actives
  | enables
  | pendings
  | priorities (n : Fin 4)
  | targets (n : Fin 4)
  | configs (n : Fin 2)
  | sgiMatrix (n : Fin 4)
  deriving DecidableEq, Repr

/-- The arrays of `diststate_s`, word by word. -/
inductive DistFile where
  | unmasked (n : Fin 32)
  | igroup (n : Fin 32)
  | actives (n : Fin 32)
  | enables (n : Fin 32)
  | pendings (n : Fin 32)
  | priorities (n : Fin 256)
  | targets (n : Fin 256)
  | configs (n : Fin 64)
  deriving DecidableEq, Repr

/-- The words of `cpustate` and of `diststate`. -/
inductive Place where
  | cpustate (cpuID : ℕ) (field : CpuFile)
  | diststate (field : DistFile)
  deriving DecidableEq, Repr

/-- The registers and the outputs of `gic_arm_tlm`. -/
structure GicArmTlm where
  enableGrp0 : Bool
  enableGrp1 : Bool
  word : Place → Word
  irqOut : ℕ → Bool
  fiqOut : ℕ → Bool

/-- An edit of one word, through a pointer to it. -/
def GicArmTlm.modify (gic : GicArmTlm) (place : Place) (edit : Word → Word) : GicArmTlm :=
  { gic with word := Function.update gic.word place (edit (gic.word place)) }

variable (nCpus : ℕ)

/-- `&cpustate[cpuID].targets[n]`: the array has four elements, and its words are
followed by those of `configs` and of `sgi_matrix`. -/
def targetsElement (n : Fin 8) : CpuFile :=
  match n with
  | 0 => .targets 0
  | 1 => .targets 1
  | 2 => .targets 2
  | 3 => .targets 3
  | 4 => .configs 0
  | 5 => .configs 1
  | 6 => .sgiMatrix 0
  | 7 => .sgiMatrix 1

/-- A word of the file of a CPU, if there is one for it. -/
def banked (cpuID : ℕ) (field : CpuFile) : Option Place :=
  if cpuID < nCpus then some (.cpustate cpuID field) else none

/-- The offset is one of a register range. -/
def inRange (start size reg : ℕ) : Bool := start ≤ reg ∧ reg < start + size

/-- `dist_addresser`. -/
def distAddresser (reg cpuID : ℕ) : Option Place :=
  if inRange 0x080 128 reg then
    let n : Fin 32 := Fin.ofNat 32 (reg / 4)
    if n = 0 then banked nCpus cpuID .igroup else some (.diststate (.igroup n))
  else if inRange 0x100 128 reg ∨ inRange 0x180 128 reg then
    let n : Fin 32 := Fin.ofNat 32 (reg / 4)
    if n = 0 then banked nCpus cpuID .enables else some (.diststate (.enables n))
  else if inRange 0x200 128 reg ∨ inRange 0x280 128 reg then
    let n : Fin 32 := Fin.ofNat 32 (reg / 4)
    if n = 0 then banked nCpus cpuID .pendings else some (.diststate (.pendings n))
  else if inRange 0x300 128 reg ∨ inRange 0x380 128 reg then
    let n : Fin 32 := Fin.ofNat 32 (reg / 4)
    if n = 0 then banked nCpus cpuID .actives else some (.diststate (.actives n))
  else if inRange 0x400 1024 reg then
    let n : Fin 256 := Fin.ofNat 256 (reg / 4)
    if h : n.val < 4 then banked nCpus cpuID (.priorities ⟨n, h⟩)
    else some (.diststate (.priorities n))
  else if inRange 0x800 1024 reg then
    let n : Fin 256 := Fin.ofNat 256 (reg / 4)
    if h : n.val < 8 then banked nCpus cpuID (targetsElement ⟨n, h⟩)
    else some (.diststate (.targets n))
  else if inRange 0xC00 256 reg then
    let n : Fin 64 := Fin.ofNat 64 (reg / 4)
    if h : n.val < 2 then banked nCpus cpuID (.configs ⟨n, h⟩)
    else some (.diststate (.configs n))
  else none

/-- What a read gives where there is no register. -/
def undefinedData : Word := 0xDEADBEEF

/-- `ReadDist`. -/
def readDist (gic : GicArmTlm) (reg cpuID : ℕ) : Word :=
  if reg < 0x80 then
    match reg with
    | 0x00 => (BitVec.ofBool gic.enableGrp1).setWidth 32 <<< 1 |||
        (BitVec.ofBool gic.enableGrp1).setWidth 32 <<< 0
    | 0x08 => 0x438
    | 0x04 => BitVec.ofNat 32 (nCpus - 1) <<< 5 ||| 31
    | _ => undefinedData
  else if inRange 0xF20 16 reg ∨ inRange 0xF10 16 reg then
    if cpuID < nCpus then gic.word (.cpustate cpuID (.sgiMatrix (Fin.ofNat 4 (reg / 4))))
    else undefinedData
  else ((distAddresser nCpus reg cpuID).map gic.word).getD undefinedData

/-- The place of the source bits of a software interrupt, and where they start. -/
def sgiPlace (cpuID no : ℕ) : Place := .cpustate cpuID (.sgiMatrix (Fin.ofNat 4 (no / 4)))

def sgiShift (no : ℕ) : ℕ := 8 * (no % 4)

/-- One turn of the loop of `clear_sgi`. -/
def clearSgiBit (no cpuID : ℕ) (srcCpu : ℤ) (gic : GicArmTlm) : Option GicArmTlm :=
  let shift := srcCpu + sgiShift no
  if 0 ≤ shift ∧ shift < 32 then
    some (gic.modify (sgiPlace cpuID no) (· &&& ~~~((1 : Word) <<< shift.toNat)))
  else none

/-- `clear_sgi`, whose loop ends after one turn for a source that is given. -/
def clearSgi (gic : GicArmTlm) (no cpuID : ℕ) (srcCpu : ℤ) : Option GicArmTlm :=
  if 0 ≤ srcCpu then clearSgiBit no cpuID srcCpu gic
  else (List.range nCpus).foldlM (fun gic _ => clearSgiBit no cpuID srcCpu gic) gic

/-- The CPUs that a write of `GICD_SGIR` interrupts. -/
def sgirReaches (data : Word) (cpuID n : ℕ) : Bool :=
  let targets : BitVec 8 := (data >>> 16).setWidth 8
  let filter := (data >>> 24) &&& 0x3
  (filter = 0 ∧ targets.getLsbD n) ∨ filter = 1 ∨ (filter = 2 ∧ n = cpuID)

/-- The number of the interrupt in a write of `GICD_SGIR`. -/
def sgirNumber (data : Word) : ℕ := (data &&& 0xF).toNat

/-- One turn of the loop of `write_gic_sgir`. -/
def writeGicSgirFor (data : Word) (cpuID : ℕ) (gic : GicArmTlm) (n : ℕ) : Option GicArmTlm :=
  let shift := cpuID + sgiShift (sgirNumber data)
  if sgirReaches data cpuID n then
    if shift < 32 then
      some (gic.modify (sgiPlace n (sgirNumber data)) (· ||| (1 : Word) <<< shift))
    else none
  else some gic

/-- `write_gic_sgir`. -/
def writeGicSgir (gic : GicArmTlm) (data : Word) (cpuID : ℕ) : Option GicArmTlm :=
  if cpuID > nCpus then some gic
  else (List.range nCpus).foldlM (writeGicSgirFor data cpuID) gic

/-- `sgi_set_nclear`. -/
def sgiSetNclear (gic : GicArmTlm) (setflag : Bool) (n : Fin 4) (data : Word) (cpuID : ℕ) :
    GicArmTlm :=
  gic.modify (.cpustate cpuID (.sgiMatrix n)) fun pendings =>
    if setflag then pendings ||| data else pendings &&& ~~~data

/-- An edit of the word of a register. -/
def writeThrough (gic : GicArmTlm) (reg cpuID : ℕ) (edit : Word → Word) : Option GicArmTlm :=
  (distAddresser nCpus reg cpuID).map fun place => gic.modify place edit

/-- The branch of `WriteDist` for the registers that clear pending interrupts. -/
def writePendingClear (gic : GicArmTlm) (reg : ℕ) (data : Word) (cpuID : ℕ) : Option GicArmTlm :=
  let cleared :=
    if reg / 4 % 32 = 0 then
      (List.range 16).foldlM
        (fun gic i => if data.getLsbD i then clearSgi nCpus gic i cpuID (-1) else some gic) gic
    else some gic
  cleared.bind fun gic => writeThrough nCpus gic reg cpuID (· &&& ~~~data)

/-- `WriteDist`. -/
def writeDist (gic : GicArmTlm) (reg : ℕ) (data : Word) (cpuID : ℕ) : Option GicArmTlm :=
  if reg < 0x80 then
    if reg = 0x00 then
      some { gic with enableGrp0 := data.getLsbD 0, enableGrp1 := data.getLsbD 1 }
    else some gic
  else if inRange 0x080 128 reg then writeThrough nCpus gic reg cpuID fun _ => data
  else if inRange 0x100 128 reg then writeThrough nCpus gic reg cpuID (· ||| data)
  else if inRange 0x180 128 reg then writeThrough nCpus gic reg cpuID (· &&& ~~~data)
  else if inRange 0x200 128 reg then writeThrough nCpus gic reg cpuID (· ||| data)
  else if inRange 0x280 128 reg then writePendingClear nCpus gic reg data cpuID
  else if inRange 0x300 128 reg then writeThrough nCpus gic reg cpuID (· ||| data)
  else if inRange 0x380 128 reg then writeThrough nCpus gic reg cpuID (· &&& ~~~data)
  else if inRange 0x400 1024 reg then writeThrough nCpus gic reg cpuID fun _ => data
  else if inRange 0x800 1024 reg then writeThrough nCpus gic reg cpuID fun _ => data
  else if inRange 0xC00 256 reg then writeThrough nCpus gic reg cpuID fun _ => data
  else if inRange 0xF20 16 reg then
    some (sgiSetNclear gic true (Fin.ofNat 4 (reg / 4)) data cpuID)
  else if inRange 0xF10 16 reg then
    some (sgiSetNclear gic false (Fin.ofNat 4 (reg / 4)) data cpuID)
  else if reg = 0xF00 then writeGicSgir nCpus gic data cpuID
  else some gic

end Prazor.Gic
