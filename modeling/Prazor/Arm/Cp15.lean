import Prazor.Core.Payload

/-!
# The registers of coprocessor 15

`arm_cp15` keeps its registers in members and finds them by two decoders, one
for reads and one for writes, that are nested switches over the same four
numbers.  What a read has not found is `-1`, and a read that ends with `-1`
stops the simulator.
-/

namespace Prazor.Arm

abbrev Word := BitVec 32

/-- The numbers of a coprocessor access, as `cp_request_extension` carries them. -/
structure Coordinate where
  cpr : ℕ
  crm : ℕ
  op1 : ℕ
  op2 : ℕ
  deriving DecidableEq, Repr

/-- The members of `arm_cp15` that a read or a write can reach. -/
inductive Register where
  | csselr | idMmfr3
  | sctlr | actlr | cpacr
  | ttbr0 | ttbr1 | ttbcr
  | dacr
  | dfsr | ifsr | dfar | ifar
  | icialluis | bpiallis | iciallu | icimvau | bpiall
  | dcimvac | dcisw | dccmvac | dccmvau | dccimvac | dccisw
  | tlbimvais | tlbiasidis | tlbiall
  | prrrMair0 | nmrrMair1
  | contextidr | tpidrurw | tpidruro | tpidrprw
  | archSpecificClockGating
  deriving DecidableEq, Repr

structure Cp15 where
  coreNo : Byte
  reg : Register → Word

/-- `PERIPHBASE`. -/
def periphbase : Word := 0xf8f00000

namespace Cp15

/-- `register = data`. -/
def store (cp15 : Cp15) (register : Register) (data : Word) : Cp15 :=
  { cp15 with reg := Function.update cp15.reg register data }

@[simp]
theorem reg_store_self (cp15 : Cp15) (register : Register) (data : Word) :
    (cp15.store register data).reg register = data := by
  simp [store]

theorem reg_store_of_ne (cp15 : Cp15) {register other : Register} (hne : other ≠ register)
    (data : Word) : (cp15.store register data).reg other = cp15.reg other := by
  simp [store, hne]

/-- The registers after the constructor, which leaves the fault registers as they
are. -/
def constructed (coreNo : Byte) (left : Register → Word) : Cp15 where
  coreNo := coreNo
  reg register :=
    match register with
    | .sctlr => 0x08C50078
    | .actlr => 0x00000020
    | .idMmfr3 => 0x00102111
    | .dfsr | .ifsr | .dfar | .ifar => left register
    | _ => 0

/-- The identification registers of `case 0`, `none` where an assertion fails. -/
def readIdentification (cp15 : Cp15) (c : Coordinate) : Option Word :=
  match c.op1 with
  | 0 =>
      match c.op2 with
      | 0 => if c.crm = 1 then some 0x1 else some 0x413FC090
      | 1 => some 0x80038003
      | 3 => if c.crm = 2 then some ((0x2 : Word) <<< 12) else none
      | 4 =>
          if c.crm = 1 then some 0x3
          else if c.crm = 2 then
            some ((0x1 : Word) <<< 12 ||| (0x1 : Word) <<< 8 ||| (0x4 : Word) <<< 4 ||| 0x1)
          else none
      | 5 => some (cp15.coreNo.setWidth 32 ||| (1 : Word) <<< 31)
      | 7 => if c.crm = 1 then some (cp15.reg .idMmfr3) else none
      | _ => none
  | 1 =>
      match c.op2 with
      | 0 =>
          let type := cp15.reg .csselr &&& 0x1
          let level := ((cp15.reg .csselr >>> 1) &&& 0x7) + 1
          if level = 1 then some 0x501FE019
          else if type = 0 ∧ level = 2 then some 0x50FFE039
          else none
      | 1 => some 0x12400023
      | _ => some (-1)
  | 2 => if c.op2 = 0 then none else some (-1)
  | _ => some (-1)

/-- The value of `r` when the switch of `read` has ended. -/
def readSwitch (cp15 : Cp15) (c : Coordinate) : Option Word :=
  match c.cpr with
  | 0 => readIdentification cp15 c
  | 1 =>
      if c.op1 = 0 ∧ c.crm = 0 then
        match c.op2 with
        | 0 => some (cp15.reg .sctlr)
        | 1 => some (cp15.reg .actlr)
        | 2 => some (cp15.reg .cpacr)
        | _ => some (-1)
      else some (-1)
  | 2 =>
      if c.crm = 0 ∧ c.op1 = 0 then
        -- the inner switch is over `op1`, not `op2`
        match c.op1 with
        | 0 => some (cp15.reg .ttbr0)
        | 1 => some (cp15.reg .ttbr1)
        | 2 => some (cp15.reg .ttbcr)
        | _ => some (-1)
      else some (-1)
  | 3 => if c.crm = 0 ∧ c.op1 = 0 ∧ c.op2 = 0 then some (cp15.reg .dacr) else some (-1)
  | 5 =>
      if c.crm = 0 ∧ c.op1 = 0 then
        match c.op2 with
        | 0 => some (cp15.reg .dfsr)
        | 1 => some (cp15.reg .ifsr)
        | _ => some (-1)
      else some (-1)
  | 6 =>
      if c.crm = 0 ∧ c.op1 = 0 then
        match c.op2 with
        | 0 => some (cp15.reg .dfar)
        | 2 => some (cp15.reg .ifar)
        | _ => some (-1)
      else some (-1)
  | 13 =>
      if c.op1 = 0 ∧ c.crm = 0 then
        match c.op2 with
        | 1 => some (cp15.reg .contextidr)
        | 2 => some (cp15.reg .tpidrurw)
        | 3 => some (cp15.reg .tpidruro)
        | 4 => some (cp15.reg .tpidrprw)
        | _ => some (-1)
      else some (-1)
  | 15 =>
      if c.op1 = 4 ∧ c.crm = 0 ∧ c.op2 = 0 then some periphbase
      else if c.op1 = 0 ∧ c.crm = 0 ∧ c.op2 = 0 then
        some (cp15.reg .archSpecificClockGating)
      else some (-1)
  | _ => some (-1)

/-- `arm_cp15::read`, `none` where an assertion fails. -/
def read (cp15 : Cp15) (c : Coordinate) : Option Word :=
  (readSwitch cp15 c).bind fun r => if r = -1 then none else some r

/-- The register whose branch of `write` a coordinate selects. -/
def writeSwitch (c : Coordinate) : Option Register :=
  match c.cpr with
  | 0 => if c.op1 = 2 ∧ c.op2 = 0 then some .csselr else none
  | 1 =>
      if c.crm = 0 ∧ c.op1 = 0 then
        match c.op2 with
        | 0 => some .sctlr
        | 1 => some .actlr
        | 2 => some .cpacr
        | _ => none
      else none
  | 2 =>
      if c.crm = 0 ∧ c.op1 = 0 then
        match c.op2 with
        | 0 => some .ttbr0
        | 1 => some .ttbr1
        | 2 => some .ttbcr
        | _ => none
      else none
  | 3 => if c.crm = 0 ∧ c.op1 = 0 ∧ c.op2 = 0 then some .dacr else none
  | 5 =>
      if c.crm = 0 ∧ c.op1 = 0 then
        match c.op2 with
        | 0 => some .dfsr
        | 1 => some .ifsr
        | _ => none
      else none
  | 6 =>
      if c.crm = 0 ∧ c.op1 = 0 then
        match c.op2 with
        | 0 => some .dfar
        | 2 => some .ifar
        | _ => none
      else none
  | 7 =>
      if c.op1 = 0 then
        match c.crm, c.op2 with
        | 1, 0 => some .icialluis
        | 1, 6 => some .bpiallis
        | 5, 0 => some .iciallu
        | 5, 1 => some .icimvau
        | 5, 6 => some .bpiall
        | 6, 1 => some .dcimvac
        | 6, 2 => some .dcisw
        | 10, 1 => some .dccmvac
        | 11, 1 => some .dccmvau
        | 14, 1 => some .dccimvac
        | 14, 2 => some .dccisw
        | _, _ => none
      else none
  | 8 =>
      if c.op1 = 0 then
        match c.crm, c.op2 with
        | 3, 1 => some .tlbimvais
        | 3, 2 => some .tlbiasidis
        | 7, 0 => some .tlbiall
        | _, _ => none
      else none
  | 10 =>
      if c.crm = 2 ∧ c.op1 = 0 then
        match c.op2 with
        | 0 => some .prrrMair0
        | 1 => some .nmrrMair1
        | _ => none
      else none
  | 13 =>
      if c.op1 = 0 ∧ c.crm = 0 then
        match c.op2 with
        | 1 => some .contextidr
        | 2 => some .tpidrurw
        | 3 => some .tpidruro
        | 4 => some .tpidrprw
        | _ => none
      else none
  | 15 =>
      if c.op1 = 0 ∧ c.crm = 0 ∧ c.op2 = 0 then some .archSpecificClockGating else none
  | _ => none

/-- The assignments at the end of a branch of `write`. -/
def assign (cp15 : Cp15) (register : Register) (data : Word) : Cp15 :=
  match register with
  -- there is no `break` after CONTEXTIDR, and TPIDRURW comes next
  | .contextidr => (cp15.store .contextidr data).store .tpidrurw data
  -- TLBIALL has a variable `data` of its own, which is `-1`
  | .tlbiall => cp15.store .tlbiall (-1)
  | register => cp15.store register data

end Cp15

/-- A message to the caches, as `cp15_cache_control_extension` carries it. -/
structure CacheControl where
  types : Byte
  domain : Byte
  shareable : Byte
  data : Word
  op : Byte
  stop : Byte
  address : Byte
  deriving DecidableEq, Repr

namespace CacheControl

/-- `1 << arm_ccache::Instruction`, `Data` and `Unified`. -/
def instruction : Byte := (1 : Byte) <<< 0
def dataAndUnified : Byte := (1 : Byte) <<< 1 ||| (1 : Byte) <<< 2

/-- `1 << cp15_cache_control_extension::Invalid`, `Clean` and `Enable`. -/
def invalid : Byte := (1 : Byte) <<< 0
def clean : Byte := (1 : Byte) <<< 1
def enable : Byte := (1 : Byte) <<< 2

/-- `cp15_cache_control_extension::None`, `PoC` and `PoU`. -/
def stopNone : Byte := 0
def stopPoC : Byte := 1
def stopPoU : Byte := 2

/-- `cache_control_msg(types, -1, -1, data, op, stop, address)`. -/
def message (types : Byte) (data : Word) (op stop address : Byte) : CacheControl where
  types := types
  domain := -1
  shareable := -1
  data := data
  op := op
  stop := stop
  address := address

end CacheControl

end Prazor.Arm
