import Prazor.Core.SignedWords
import Prazor.Mips.Barrel

/-!
# Integer instructions of the MIPS64 interpreter

What the architecture leaves in the registers after the integer instructions that the
interpreter implements, what the interpreter leaves, and when the two are the same.
-/

namespace Prazor.Mips64

open AddWithCarry SignedWords

/-- The integer instructions that the interpreter implements. -/
inductive Integer
  | sll | srl | sra | sllv | srlv | srav
  | add | addu | sub | subu | and | or | xor | nor | slt | sltu
  | daddu | dsubu | dsll | dsrl | dsll32 | dsrl32 | dsra32 | dsllv
  | mult | multu | div | divu
  | addi | addiu | slti | sltiu | andi | ori | xori | lui | daddi | daddiu
  deriving DecidableEq

/-- What becomes of the result of an integer instruction. -/
inductive Outcome
  | register (d : Reg) (value : BitVec 64)
  | hiLo (hi lo : BitVec 64)
  /-- An exception is raised and no register is written. -/
  | overflow
  /-- HI and LO may hold anything. -/
  | unpredictable

namespace Integer

/-- The function code of an instruction of opcode 0, or else its opcode. -/
def code : Integer → BitVec 6 ⊕ BitVec 6
  | sll => .inl 0o00
  | srl => .inl 0o02
  | sra => .inl 0o03
  | sllv => .inl 0o04
  | srlv => .inl 0o06
  | srav => .inl 0o07
  | dsllv => .inl 0o24
  | mult => .inl 0o30
  | multu => .inl 0o31
  | div => .inl 0o32
  | divu => .inl 0o33
  | add => .inl 0o40
  | addu => .inl 0o41
  | sub => .inl 0o42
  | subu => .inl 0o43
  | and => .inl 0o44
  | or => .inl 0o45
  | xor => .inl 0o46
  | nor => .inl 0o47
  | slt => .inl 0o52
  | sltu => .inl 0o53
  | daddu => .inl 0o55
  | dsubu => .inl 0o57
  | dsll => .inl 0o70
  | dsrl => .inl 0o72
  | dsll32 => .inl 0o74
  | dsrl32 => .inl 0o76
  | dsra32 => .inl 0o77
  | addi => .inr 0o10
  | addiu => .inr 0o11
  | slti => .inr 0o12
  | sltiu => .inr 0o13
  | andi => .inr 0o14
  | ori => .inr 0o15
  | xori => .inr 0o16
  | lui => .inr 0o17
  | daddi => .inr 0o30
  | daddiu => .inr 0o31

/-- An instruction word of this kind, whatever its other fields are. -/
def Encodes (i : Integer) (ins : BitVec 32) : Prop :=
  match i.code with
  | .inl function => opcode ins = 0 ∧ scode ins = function
  | .inr op => opcode ins = op

/-- The registers that an operation on words reads.  They are to hold words. -/
def words (i : Integer) (ins : BitVec 32) : List Reg :=
  match i with
  | sll | srl | sra => [rt ins]
  | sllv | srlv | srav | add | addu | sub | subu | mult | multu | div | divu =>
      [rs ins, rt ins]
  | addi | addiu => [rs ins]
  | _ => []

/-- A sum or a difference with an overflow exception. -/
def orOverflow (width : ℕ) (d : Reg) (n : ℤ) : Outcome :=
  if FitsSigned width n then .register d (BitVec.ofInt 64 n) else .overflow

/-- The high and the low word of a product. -/
def product (p : BitVec 64) : Outcome :=
  .hiLo ((p.extractLsb' 32 32).signExtend 64) ((p.setWidth 32).signExtend 64)

/-- The architecture's result of an instruction. -/
def outcome (i : Integer) (regs : Reg → BitVec 64) (ins : BitVec 32) : Outcome :=
  let a := regs (rs ins)
  let b := regs (rt ins)
  let aw := a.setWidth 32
  let bw := b.setWidth 32
  let sa := (rex ins).toNat
  let extended := (imm ins).signExtend 64
  match i with
  | sll => .register (rd ins) ((bw <<< sa).signExtend 64)
  | srl => .register (rd ins) ((bw >>> sa).signExtend 64)
  | sra => .register (rd ins) ((bw.sshiftRight sa).signExtend 64)
  | sllv => .register (rd ins) ((bw <<< (a.toNat % 32)).signExtend 64)
  | srlv => .register (rd ins) ((bw >>> (a.toNat % 32)).signExtend 64)
  | srav => .register (rd ins) ((bw.sshiftRight (a.toNat % 32)).signExtend 64)
  | dsllv => .register (rd ins) (b <<< (a.toNat % 64))
  | dsll => .register (rd ins) (b <<< sa)
  | dsrl => .register (rd ins) (b >>> sa)
  | dsll32 => .register (rd ins) (b <<< (sa + 32))
  | dsrl32 => .register (rd ins) (b >>> (sa + 32))
  | dsra32 => .register (rd ins) (b.sshiftRight (sa + 32))
  | add => orOverflow 32 (rd ins) (aw.toInt + bw.toInt)
  | addu => .register (rd ins) ((aw + bw).signExtend 64)
  | sub => orOverflow 32 (rd ins) (aw.toInt - bw.toInt)
  | subu => .register (rd ins) ((aw - bw).signExtend 64)
  | and => .register (rd ins) (a &&& b)
  | or => .register (rd ins) (a ||| b)
  | xor => .register (rd ins) (a ^^^ b)
  | nor => .register (rd ins) (~~~(a ||| b))
  | slt => .register (rd ins) (if a.toInt < b.toInt then 1 else 0)
  | sltu => .register (rd ins) (if a.toNat < b.toNat then 1 else 0)
  | daddu => .register (rd ins) (a + b)
  | dsubu => .register (rd ins) (a - b)
  | mult => product (BitVec.ofInt 64 (aw.toInt * bw.toInt))
  | multu => product (BitVec.ofNat 64 (aw.toNat * bw.toNat))
  | div =>
      if bw = 0 then .unpredictable
      else .hiLo ((BitVec.ofInt 32 (aw.toInt.tmod bw.toInt)).signExtend 64)
        ((BitVec.ofInt 32 (aw.toInt.tdiv bw.toInt)).signExtend 64)
  | divu =>
      if bw = 0 then .unpredictable
      else .hiLo ((BitVec.ofNat 32 (aw.toNat % bw.toNat)).signExtend 64)
        ((BitVec.ofNat 32 (aw.toNat / bw.toNat)).signExtend 64)
  | addi => orOverflow 32 (rt ins) (aw.toInt + (imm ins).toInt)
  | addiu => .register (rt ins) ((aw + (imm ins).signExtend 32).signExtend 64)
  | slti => .register (rt ins) (if a.toInt < (imm ins).toInt then 1 else 0)
  | sltiu => .register (rt ins) (if a.toNat < extended.toNat then 1 else 0)
  | andi => .register (rt ins) (a &&& (imm ins).setWidth 64)
  | ori => .register (rt ins) (a ||| (imm ins).setWidth 64)
  | xori => .register (rt ins) (a ^^^ (imm ins).setWidth 64)
  | lui => .register (rt ins) ((imm ins ++ (0 : BitVec 16)).signExtend 64)
  | daddi => orOverflow 64 (rt ins) (a.toInt + (imm ins).toInt)
  | daddiu => .register (rt ins) (a + extended)

/-- When the interpreter leaves that result, by the signed numbers in the registers.  The
shifts of words lose nothing to the left and shift no sign to the right, sums do not
overflow, the operand that is added and should be subtracted is its own negative, products
of unsigned words have no sign to be dropped, and the host can divide.  Register 0 takes
any result, and an overflow goes unnoticed where the register holds the wrapped sum. -/
def Right (i : Integer) (regs : Reg → BitVec 64) (ins : BitVec 32) : Prop :=
  let a := regs (rs ins)
  let b := regs (rt ins)
  match i with
  | sll => rd ins = 0 ∨ FitsSigned 32 (b.toInt * 2 ^ (rex ins).toNat)
  | sllv => rd ins = 0 ∨ FitsSigned 32 (b.toInt * 2 ^ (a.toNat % 32))
  | srl => rd ins = 0 ∨ 0 ≤ b.toInt ∨ rex ins = 0
  | srlv => rd ins = 0 ∨ 0 ≤ b.toInt ∨ a.toNat % 32 = 0
  | add =>
      rd ins = 0 ∨ FitsSigned 32 (a.toInt + b.toInt) ∨ regs (rd ins) = low 32 (a + b)
  | addi =>
      rt ins = 0 ∨ FitsSigned 32 (a.toInt + (imm ins).toInt) ∨
        b = low 32 (a + (imm ins).signExtend 64)
  | daddi =>
      rt ins = 0 ∨ FitsSigned 64 (a.toInt + (imm ins).toInt) ∨
        b = a + (imm ins).signExtend 64
  | addu => rd ins = 0 ∨ FitsSigned 32 (a.toInt + b.toInt)
  | sub =>
      rd ins = 0 ∨
        if FitsSigned 32 (a.toInt - b.toInt) then b.toInt = 0 ∨ b.toInt = -2 ^ 31
        else regs (rd ins) = low 32 (a + b)
  | dsubu => rd ins = 0 ∨ b.toInt = 0 ∨ b.toInt = -2 ^ 63
  | multu =>
      0 ≤ a.toInt ∧ 0 ≤ b.toInt ∨ a.toInt = 0 ∨ b.toInt = 0 ∨
        a.toInt = -2 ^ 31 ∧ b.toInt = -2 ^ 31
  | div => b.toInt ≠ 0 ∧ ¬(a.toInt = -2 ^ 31 ∧ b.toInt = -1)
  | divu => b.toInt ≠ 0
  | _ => True

/-- What the interpreter leaves, `none` where the host traps it. -/
def computed (i : Integer) (regs : Reg → BitVec 64) (ins : BitVec 32) : Option Outcome :=
  let a := regs (rs ins)
  let b := regs (rt ins)
  let sa := (rex ins).toNat
  let divided (result : BitVec 32 × BitVec 32) : Outcome :=
    .hiLo (sex32 result.2) (sex32 result.1)
  match i with
  | sll => some (.register (rd ins) (b <<< sa))
  | srl => some (.register (rd ins) (b >>> sa))
  | sra => some (.register (rd ins) (b.sshiftRight sa))
  | sllv => some (.register (rd ins) (b <<< (a &&& 31).toNat))
  | srlv => some (.register (rd ins) (b >>> (a &&& 31).toNat))
  | srav => some (.register (rd ins) (b.sshiftRight (a &&& 31).toNat))
  | dsllv => some (.register (rd ins) (b <<< (a &&& 63).toNat))
  | dsll => some (.register (rd ins) (b <<< sa))
  | dsrl => some (.register (rd ins) (b >>> sa))
  | dsll32 => some (.register (rd ins) (b <<< (32 + sa)))
  | dsrl32 => some (.register (rd ins) (b >>> (32 + sa)))
  | dsra32 => some (.register (rd ins) (b.sshiftRight (32 + sa)))
  | add | sub => some (.register (rd ins) (sex32 ((a + b).setWidth 32)))
  | addu | daddu | dsubu => some (.register (rd ins) (a + b))
  | subu => some (.register (rd ins) (sex32 ((a - b).setWidth 32)))
  | and => some (.register (rd ins) (a &&& b))
  | or => some (.register (rd ins) (a ||| b))
  | xor => some (.register (rd ins) (a ^^^ b))
  | nor => some (.register (rd ins) (~~~(a ||| b)))
  | slt => some (.register (rd ins) (truth (a.slt b)))
  | sltu => some (.register (rd ins) (truth (a.ult b)))
  | mult =>
      some (.hiLo (sex32 (((a * b).sshiftRight 32).setWidth 32)) (sex32 ((a * b).setWidth 32)))
  | multu =>
      some (.hiLo (sex32 (((a * b) >>> 32).setWidth 32)) (sex32 ((a * b).setWidth 32)))
  | div => (hostDiv (a.setWidth 32) (b.setWidth 32)).map divided
  | divu => (hostDivU (a.setWidth 32) (b.setWidth 32)).map divided
  | addi | addiu => some (.register (rt ins) (sex32 ((a + sex16to32 (imm ins)).setWidth 32)))
  | slti => some (.register (rt ins) (truth (a.slt (sex16 (imm ins)))))
  | sltiu => some (.register (rt ins) (truth (a.ult (sex16 (imm ins)))))
  | andi => some (.register (rt ins) (a &&& (imm ins).setWidth 64))
  | ori => some (.register (rt ins) (a ||| (imm ins).setWidth 64))
  | xori => some (.register (rt ins) (a ^^^ (imm ins).setWidth 64))
  | lui => some (.register (rt ins) (((imm ins).setWidth 32 <<< 16).signExtend 64))
  | daddi | daddiu => some (.register (rt ins) (a + sex16 (imm ins)))

end Integer

namespace Barrel

variable {μ : Type*} {node : Node μ} {s s' mid : Barrel μ} {ins : BitVec 32} {tmp64 : BitVec 64}

/-- A result as the interpreter writes it. -/
def put (s : Barrel μ) : Outcome → Barrel μ
  | .register d value => s.regfileUp d value
  | .hiLo hi lo => { s with multhi := hi, multlo := lo }
  | .overflow => s
  | .unpredictable => s

theorem divide_eq (host : BitVec 32 → BitVec 32 → Option (BitVec 32 × BitVec 32))
    (s : Barrel μ) (ins : BitVec 32) :
    s.divide host ins =
      ((host ((s.regfile (rs ins)).setWidth 32) ((s.regfile (rt ins)).setWidth 32)).map
        fun result => Outcome.hiLo (sex32 result.2) (sex32 result.1)).map s.put := by
  rw [divide, Option.map_map]
  rfl

/-- The instruction switch on an integer instruction. -/
theorem perform_integer (i : Integer) (hins : i.Encodes ins) :
    mid.perform node tmp64 ins = (i.computed mid.regfile ins).map mid.put := by
  have hspecial {function : BitVec 6} (hcode : opcode ins = 0 ∧ scode ins = function) :
      mid.perform node tmp64 ins = mid.special node ins := if_pos hcode.1
  have hexecute {op : BitVec 6} (hcode : opcode ins = op) (hop : op ≠ 0) :
      mid.perform node tmp64 ins = mid.execute node tmp64 ins := if_neg (hcode ▸ hop)
  rw [Integer.Encodes] at hins
  cases i
  case add | sub =>
      rw [hspecial hins, special, hins.2]
      exact congrArg some (regfileUpXflow32_eq ..)
  case daddu | dsubu =>
      rw [hspecial hins, special, hins.2]
      exact congrArg some (regfileUpXflow64_eq ..)
  case div | divu =>
      rw [hspecial hins, special, hins.2]
      exact divide_eq ..
  case addi =>
      change opcode ins = _ at hins
      rw [hexecute hins (by decide), execute, hins]
      exact congrArg some (regfileUpXflow32_eq ..)
  case daddi =>
      change opcode ins = _ at hins
      rw [hexecute hins (by decide), execute, hins]
      exact congrArg some (regfileUpXflow64_eq ..)
  case addiu | slti | sltiu | andi | ori | xori | lui | daddiu =>
      change opcode ins = _ at hins
      rw [hexecute hins (by decide), execute, hins]
      rfl
  all_goals
    rw [hspecial hins, special, hins.2]
    rfl

/-- The state after a step agrees with a result. -/
def Leaves (s s' : Barrel μ) : Outcome → Prop
  | .register d value =>
      s'.regfile = written s.regfile d value ∧ s'.multhi = s.multhi ∧ s'.multlo = s.multlo
  | .hiLo hi lo => s'.regfile = s.regfile ∧ s'.multhi = hi ∧ s'.multlo = lo
  | .overflow => s'.regfile = s.regfile ∧ s'.multhi = s.multhi ∧ s'.multlo = s.multlo
  | .unpredictable => s'.regfile = s.regfile

/-- A step does not stop the simulator, leaves the architecture's result of an integer
instruction in its destination, changes no other register and keeps register 0 zero. -/
def Executes (node : Node μ) (s : Barrel μ) (tmp64 : BitVec 64) (i : Integer) : Prop :=
  ∃ s', s.step node tmp64 = some s' ∧ Leaves s s' (i.outcome s.regfile s.nextIns) ∧
    s'.regfile 0 = 0

theorem leaves_register (s : Barrel μ) (d : Reg) (v w : BitVec 64) :
    Leaves s (s.put (.register d v)) (.register d w) ↔ d = 0 ∨ v = w := by
  rw [← written_eq_written_iff s.regfile, put, regfileUp_eq]
  exact and_iff_left ⟨rfl, rfl⟩

theorem leaves_overflow (s : Barrel μ) (d : Reg) (v : BitVec 64) :
    Leaves s (s.put (.register d v)) .overflow ↔ d = 0 ∨ s.regfile d = v := by
  rw [← written_eq_self_iff, put, regfileUp_eq]
  exact and_iff_left ⟨rfl, rfl⟩

theorem leaves_hiLo (s : Barrel μ) (hi lo hi' lo' : BitVec 64) :
    Leaves s (s.put (.hiLo hi lo)) (.hiLo hi' lo') ↔ hi = hi' ∧ lo = lo' :=
  and_iff_right rfl

/-- A sum in a register, where an overflow would leave the register. -/
theorem leaves_orOverflow (s : Barrel μ) (width : ℕ) (d : Reg) (v : BitVec 64) (n : ℤ) :
    Leaves s (s.put (.register d v)) (Integer.orOverflow width d n) ↔
      d = 0 ∨ if FitsSigned width n then v = BitVec.ofInt 64 n else s.regfile d = v := by
  rw [Integer.orOverflow]
  split
  · exact leaves_register ..
  · exact leaves_overflow ..

theorem loadBack_put (hload : s.writeBackFlag = false) (result : Outcome) :
    (s.put result).loadBack = s.put result := by
  apply if_neg
  apply ne_true_of_eq_false
  cases result with
  | register d value =>
      rw [put, regfileUp_eq]
      exact hload
  | hiLo hi lo => exact hload
  | overflow => exact hload
  | unpredictable => exact hload

theorem Advanced.leaves_put {word : BitVec 32} (hmid : Advanced s mid word)
    (result outcome : Outcome) :
    Leaves s (mid.put result) outcome ↔ Leaves s (s.put result) outcome := by
  have hregs : (mid.put result).regfile = (s.put result).regfile ∧
      (mid.put result).multhi = (s.put result).multhi ∧
      (mid.put result).multlo = (s.put result).multlo := by
    cases result with
    | register d value =>
        rw [put, put, regfileUp_eq, regfileUp_eq, hmid.regfile]
        exact ⟨rfl, hmid.multhi, hmid.multlo⟩
    | hiLo hi lo => exact ⟨hmid.regfile, rfl, rfl⟩
    | overflow => exact ⟨hmid.regfile, hmid.multhi, hmid.multlo⟩
    | unpredictable => exact ⟨hmid.regfile, hmid.multhi, hmid.multlo⟩
  cases outcome <;> simp only [Leaves, hregs]

/-- A step that only puts a result. -/
theorem executes_iff (i : Integer) (hsettled : s.Settled) (hins : i.Encodes s.nextIns)
    (hfetch : (s.advance node).isSome) :
    s.Executes node tmp64 i ↔ ∃ result, i.computed s.regfile s.nextIns = some result ∧
      Leaves s (s.put result) (i.outcome s.regfile s.nextIns) := by
  obtain ⟨⟨mid, ins⟩, hadvance⟩ := Option.isSome_iff_exists.mp hfetch
  obtain ⟨rfl, fetched, word, -, -, hmid⟩ := advance_spec hsettled hadvance
  have hperform : mid.perform node tmp64 s.nextIns =
      (i.computed mid.regfile s.nextIns).map mid.put := perform_integer i hins
  rw [hmid.regfile] at hperform
  constructor
  · rintro ⟨s', hstep, hleaves, -⟩
    obtain ⟨mid', ins', performed, hadvance', hperformed, hs'⟩ := step_eq_some_iff.mp hstep
    cases hadvance.symm.trans hadvance'
    obtain ⟨result, hresult, hput⟩ := Option.map_eq_some_iff.mp (hperform.symm.trans hperformed)
    rw [← hs', ← hput, loadBack_put hmid.noLoad, hmid.leaves_put] at hleaves
    exact ⟨result, hresult, hleaves⟩
  · rintro ⟨result, hresult, hleaves⟩
    rw [hresult] at hperform
    have hstep : s.step node tmp64 = some (mid.put result) :=
      step_eq_some_iff.mpr ⟨mid, s.nextIns, mid.put result, hadvance, hperform,
        loadBack_put hmid.noLoad result⟩
    exact ⟨mid.put result, hstep, (hmid.leaves_put result _).mpr hleaves,
      (settled_step hsettled hstep).zero⟩

/-! ## The results one by one -/

theorem toNat_and_mask (x : BitVec 64) {k : ℕ} (hk : k ≤ 64) :
    (x &&& BitVec.ofNat 64 (2 ^ k - 1)).toNat = x.toNat % 2 ^ k := by
  have hpow : 2 ^ k ≤ 2 ^ 64 := Nat.pow_le_pow_right (by decide) hk
  rw [BitVec.toNat_and, BitVec.toNat_ofNat, Nat.mod_eq_of_lt (by omega),
    Nat.and_two_pow_sub_one_eq_mod]

theorem toNat_and_31 (x : BitVec 64) : (x &&& 31).toNat = x.toNat % 32 :=
  toNat_and_mask x (k := 5) (by decide)

theorem toNat_and_63 (x : BitVec 64) : (x &&& 63).toNat = x.toNat % 64 :=
  toNat_and_mask x (k := 6) (by decide)

theorem shiftLeft_right_iff {b : BitVec 64} (hb : Extended 32 b) {k : ℕ} (hk : k < 32) :
    b <<< k = (b.setWidth 32 <<< k).signExtend 64 ↔ FitsSigned 32 (b.toInt * 2 ^ k) := by
  rw [← low_shiftLeft (by decide), ← extended_shiftLeft_iff (by decide) (by omega) hb]
  exact eq_comm

theorem sum_eq_low (a b : BitVec 64) : sex32 ((a + b).setWidth 32) = low 32 (a + b) :=
  sex32_eq _

/-- A sum of words with its sign is the exact sum when that fits. -/
theorem low_add_eq_ofInt {a b : BitVec 64} (ha : Extended 32 a) (hb : Extended 32 b)
    (hfits : FitsSigned 32 (a.toInt + b.toInt)) :
    low 32 (a + b) = BitVec.ofInt 64 (a.toInt + b.toInt) := by
  rw [BitVec.ofInt_add, BitVec.ofInt_toInt, BitVec.ofInt_toInt]
  exact (extended_add_iff (by decide) (by decide) ha hb).mpr hfits

/-- A sum of words is their difference when the one is its own negative. -/
theorem low_add_eq_ofInt_sub_iff {a b : BitVec 64} (ha : Extended 32 a) (hb : Extended 32 b)
    (hfits : FitsSigned 32 (a.toInt - b.toInt)) :
    low 32 (a + b) = BitVec.ofInt 64 (a.toInt - b.toInt) ↔
      b.toInt = 0 ∨ b.toInt = -2 ^ 31 := by
  obtain ⟨hlow, hhigh⟩ := (extended_iff (by decide) (by decide) b).mp hb
  have hwide : FitsSigned 64 (a.toInt - b.toInt) := by
    obtain ⟨hleft, hright⟩ := hfits
    constructor <;> omega
  have hdifference : BitVec.ofInt 64 (a.toInt - b.toInt) = a - b := by
    rw [← toInt_sub_of_fits (by decide) a b hwide, BitVec.ofInt_toInt]
  have hextended : Extended 32 (a - b) := by
    rw [extended_iff (by decide) (by decide), toInt_sub_of_fits (by decide) a b hwide]
    exact hfits
  rw [hdifference, ← hextended, low_eq_low_iff (by decide),
    toInt_sub_of_fits (by decide) a b hwide,
    toInt_add_of_extended (by decide) (by decide) ha hb]
  constructor
  · rintro ⟨k, hk⟩
    omega
  · rintro (hb | hb)
    · exact ⟨0, by omega⟩
    · exact ⟨-1, by omega⟩

theorem add_eq_sub_iff (a b : BitVec 64) :
    a + b = a - b ↔ b.toInt = 0 ∨ b.toInt = -2 ^ 63 := by
  have hlt := b.isLt
  have hdouble : a + b = a - b ↔ b.toNat = 0 ∨ b.toNat = 2 ^ 63 := by
    rw [BitVec.sub_eq_add_neg, BitVec.add_right_inj, ← BitVec.toNat_inj, BitVec.toNat_neg]
    omega
  rw [hdouble, BitVec.toInt_eq_toNat_cond]
  split <;> omega

theorem extended_immediate (x : BitVec 16) : Extended 32 (x.signExtend 64) :=
  extended_signExtend (by decide) (by decide) x

/-- The sum of a word and an immediate. -/
theorem low_add_immediate (a : BitVec 64) (x : BitVec 16) :
    sex32 ((a + sex16to32 x).setWidth 32) = low 32 (a + x.signExtend 64) := by
  have hnarrow : (x.signExtend 64).setWidth 32 = x.signExtend 32 := by
    rw [← BitVec.toInt_inj, toInt_setWidth_of_extended (by decide) (extended_immediate x),
      BitVec.toInt_signExtend_of_le (by decide), BitVec.toInt_signExtend_of_le (by decide)]
  rw [sex32_eq, low, BitVec.setWidth_add _ _ (by decide), BitVec.setWidth_add _ _ (by decide),
    sex16to32_eq, hnarrow]

theorem signExtend_inj {x y : BitVec 32} : x.signExtend 64 = y.signExtend 64 ↔ x = y := by
  rw [← BitVec.toInt_inj, BitVec.toInt_signExtend_of_le (by decide),
    BitVec.toInt_signExtend_of_le (by decide), BitVec.toInt_inj]

/-- HI and LO hold a product. -/
theorem halves_eq_iff (p q : BitVec 64) :
    (p.extractLsb' 32 32).signExtend 64 = (q.extractLsb' 32 32).signExtend 64 ∧
      (p.setWidth 32).signExtend 64 = (q.setWidth 32).signExtend 64 ↔ p = q := by
  rw [signExtend_inj, signExtend_inj]
  constructor
  · intro hhalves
    obtain ⟨hhigh, hlow⟩ := hhalves
    apply BitVec.eq_of_getLsbD_eq
    intro i hi
    by_cases hi32 : i < 32
    · have hbit := congrArg (BitVec.getLsbD · i) hlow
      simpa [hi32] using hbit
    · have hbit := congrArg (BitVec.getLsbD · (i - 32)) hhigh
      have hsub : 32 + (i - 32) = i := by omega
      have hlt : i - 32 < 32 := by omega
      simpa [hsub, hlt] using hbit
  · rintro rfl
    exact ⟨rfl, rfl⟩

theorem setWidth_sshiftRight (p : BitVec 64) :
    (p.sshiftRight 32).setWidth 32 = p.extractLsb' 32 32 := by
  apply BitVec.eq_of_getLsbD_eq
  intro i hi
  have hlow : 32 + i < 64 := by omega
  have hwide : ¬64 ≤ i := by omega
  rw [BitVec.getLsbD_setWidth, BitVec.getLsbD_extractLsb', BitVec.getLsbD_sshiftRight,
    decide_eq_false hwide, Bool.not_false, Bool.true_and, if_pos hlow]

theorem setWidth_ushiftRight (p : BitVec 64) :
    (p >>> 32).setWidth 32 = p.extractLsb' 32 32 := by
  apply BitVec.eq_of_getLsbD_eq
  intro i hi
  simp [hi]

theorem ofInt_eq_ofInt_iff (x y : ℤ) :
    BitVec.ofInt 64 x = BitVec.ofInt 64 y ↔ (2 ^ 64 : ℤ) ∣ x - y := by
  rw [← BitVec.toInt_inj, BitVec.toInt_ofInt, BitVec.toInt_ofInt,
    Int.bmod_eq_bmod_iff_bmod_sub_eq_zero, ← Int.dvd_iff_bmod_eq_zero]
  rfl

/-- The word in a register as a number without a sign. -/
theorem toNat_setWidth_of_extended {a : BitVec 64} (ha : Extended 32 a) :
    ((a.setWidth 32).toNat : ℤ) = if a.toInt < 0 then a.toInt + 2 ^ 32 else a.toInt := by
  have hlt := (a.setWidth 32).isLt
  rw [← toInt_setWidth_of_extended (by decide) ha, BitVec.toInt_eq_toNat_cond]
  split <;> split <;> omega

/-- The product of the registers is that of the words in them, without their signs. -/
theorem multu_right_iff {a b : BitVec 64} (ha : Extended 32 a) (hb : Extended 32 b) :
    a * b = BitVec.ofNat 64 ((a.setWidth 32).toNat * (b.setWidth 32).toNat) ↔
      0 ≤ a.toInt ∧ 0 ≤ b.toInt ∨ a.toInt = 0 ∨ b.toInt = 0 ∨
        a.toInt = -2 ^ 31 ∧ b.toInt = -2 ^ 31 := by
  obtain ⟨hlowA, hhighA⟩ := (extended_iff (by decide) (by decide) a).mp ha
  obtain ⟨hlowB, hhighB⟩ := (extended_iff (by decide) (by decide) b).mp hb
  rw [← BitVec.ofInt_natCast, Nat.cast_mul, toNat_setWidth_of_extended ha,
    toNat_setWidth_of_extended hb]
  have hproduct : a * b = BitVec.ofInt 64 (a.toInt * b.toInt) := by
    rw [BitVec.ofInt_mul, BitVec.ofInt_toInt, BitVec.ofInt_toInt]
  rw [hproduct, ofInt_eq_ofInt_iff]
  generalize a.toInt = x at *
  generalize b.toInt = y at *
  by_cases hx : x < 0 <;> by_cases hy : y < 0
  · rw [if_pos hx, if_pos hy,
      show x * y - (x + 2 ^ 32) * (y + 2 ^ 32) = -2 ^ 32 * (x + y + 2 ^ 32) by ring]
    omega
  · rw [if_pos hx, if_neg hy, show x * y - (x + 2 ^ 32) * y = -2 ^ 32 * y by ring]
    omega
  · rw [if_neg hx, if_pos hy, show x * y - x * (y + 2 ^ 32) = -2 ^ 32 * x by ring]
    omega
  · rw [if_neg hx, if_neg hy, sub_self]
    omega

theorem word_eq_iff {a : BitVec 64} (ha : Extended 32 a) (w : BitVec 32) :
    a.setWidth 32 = w ↔ a.toInt = w.toInt := by
  rw [← toInt_setWidth_of_extended (by decide) ha, BitVec.toInt_inj]

/-- The host divides the words unless it is trapped. -/
theorem hostDiv_spec {a b : BitVec 64} (ha : Extended 32 a) (hb : Extended 32 b) :
    hostDiv (a.setWidth 32) (b.setWidth 32) =
      if b.toInt ≠ 0 ∧ ¬(a.toInt = -2 ^ 31 ∧ b.toInt = -1) then
        some (BitVec.ofInt 32 ((a.setWidth 32).toInt.tdiv (b.setWidth 32).toInt),
          BitVec.ofInt 32 ((a.setWidth 32).toInt.tmod (b.setWidth 32).toInt))
      else none := by
  have hquotient : BitVec.ofInt 32 ((a.setWidth 32).toInt.tdiv (b.setWidth 32).toInt) =
      (a.setWidth 32).sdiv (b.setWidth 32) := by
    rw [← BitVec.toInt_inj, BitVec.toInt_ofInt, BitVec.toInt_sdiv]
  have hremainder : BitVec.ofInt 32 ((a.setWidth 32).toInt.tmod (b.setWidth 32).toInt) =
      (a.setWidth 32).srem (b.setWidth 32) := by
    rw [← BitVec.toInt_srem, BitVec.ofInt_toInt]
  have hzero : b.setWidth 32 = 0 ↔ b.toInt = 0 := word_eq_iff hb 0
  have hminus : b.setWidth 32 = -1 ↔ b.toInt = -1 := word_eq_iff hb (-1)
  have hleast : a.setWidth 32 = 0x80000000 ↔ a.toInt = -2 ^ 31 := word_eq_iff ha 0x80000000
  simp only [hostDiv, hquotient, hremainder, hzero, hminus, hleast, ne_eq, ← not_or, ite_not]

theorem hostDivU_spec {a b : BitVec 64} (hb : Extended 32 b) :
    hostDivU (a.setWidth 32) (b.setWidth 32) =
      if b.toInt ≠ 0 then
        some (BitVec.ofNat 32 ((a.setWidth 32).toNat / (b.setWidth 32).toNat),
          BitVec.ofNat 32 ((a.setWidth 32).toNat % (b.setWidth 32).toNat))
      else none := by
  have hzero : b.setWidth 32 = 0 ↔ b.toInt = 0 := word_eq_iff hb 0
  rw [← BitVec.toNat_udiv, ← BitVec.toNat_umod, BitVec.ofNat_toNat, BitVec.ofNat_toNat,
    BitVec.setWidth_eq, BitVec.setWidth_eq]
  simp only [hostDivU, hzero, ne_eq, ite_not]

theorem truth_decide (p : Prop) [Decidable p] : truth (decide p) = if p then 1 else 0 := by
  simp only [truth, decide_eq_true_eq]

/-- The interpreter puts a result and the architecture leaves the other one. -/
def Puts (s : Barrel μ) (result : Option Outcome) (outcome : Outcome) : Prop :=
  ∃ r, result = some r ∧ Leaves s (s.put r) outcome

theorem puts_some (s : Barrel μ) (r outcome : Outcome) :
    Puts s (some r) outcome ↔ Leaves s (s.put r) outcome := by
  rw [Puts]
  simp only [Option.some.injEq, exists_eq_left']

theorem puts_register (s : Barrel μ) (d : Reg) (v w : BitVec 64) :
    Puts s (some (.register d v)) (.register d w) ↔ d = 0 ∨ v = w :=
  (puts_some ..).trans (leaves_register ..)

/-- The right result in a register. -/
theorem puts_same (s : Barrel μ) (d : Reg) {v w : BitVec 64} (hsame : v = w) :
    Puts s (some (.register d v)) (.register d w) ↔ True :=
  iff_true_intro ((puts_register ..).mpr (.inr hsame))

/-- A sum in a register that is right unless it overflows. -/
theorem puts_sum (s : Barrel μ) (width : ℕ) (d : Reg) {v : BitVec 64} {n : ℤ}
    (hsum : FitsSigned width n → v = BitVec.ofInt 64 n) :
    Puts s (some (.register d v)) (Integer.orOverflow width d n) ↔
      d = 0 ∨ FitsSigned width n ∨ s.regfile d = v := by
  rw [puts_some, leaves_orOverflow]
  apply or_congr_right
  split
  case isTrue hfits => exact iff_of_true (hsum hfits) (.inl hfits)
  case isFalse hfits => exact (or_iff_right hfits).symm

/-- A quotient and a remainder. -/
theorem puts_divided {p : Prop} [Decidable p] {zero : Prop} [Decidable zero] (hzero : p → ¬zero)
    (s : Barrel μ) (result : BitVec 32 × BitVec 32) {hi lo : BitVec 64}
    (hhi : sex32 result.2 = hi) (hlo : sex32 result.1 = lo) :
    Puts s ((if p then some result else none).map fun result =>
        Outcome.hiLo (sex32 result.2) (sex32 result.1))
      (if zero then .unpredictable else .hiLo hi lo) ↔ p := by
  by_cases hp : p
  · rw [if_pos hp, if_neg (hzero hp), Option.map_some, puts_some, leaves_hiLo]
    exact iff_of_true ⟨hhi, hlo⟩ hp
  · rw [if_neg hp, Option.map_none]
    refine iff_of_false ?_ hp
    rintro ⟨r, hnone, -⟩
    cases hnone

/-- The interpreter's result is the architecture's exactly when the instruction is right. -/
def Judged (s : Barrel μ) (ins : BitVec 32) (i : Integer) : Prop :=
  Puts s (i.computed s.regfile ins) (i.outcome s.regfile ins) ↔ i.Right s.regfile ins

section Judged

-- the equations of all instructions, derived once for the lemmas below
attribute [local simp] Integer.computed Integer.outcome Integer.Right Integer.product

variable {s : Barrel μ} {ins : BitVec 32}

/-! Shifts of words -/

section Shifts

variable (hb : Extended 32 (s.regfile (rt ins)))
include hb

theorem judged_sll : Judged s ins .sll :=
  (puts_register ..).trans (or_congr_right (shiftLeft_right_iff hb (rex ins).isLt))

theorem judged_srl : Judged s ins .srl := by
  have hsa := (rex ins).isLt
  have hrex : (rex ins).toNat = 0 ↔ rex ins = 0 := BitVec.toNat_inj (y := 0)
  refine (puts_register ..).trans (or_congr_right ?_)
  rw [← hrex]
  exact ushiftRight_eq_iff (by omega) hb

theorem judged_sra : Judged s ins .sra :=
  puts_same _ _ (sshiftRight_of_extended (by decide) hb _)

theorem judged_sllv : Judged s ins .sllv := by
  refine (puts_register ..).trans (or_congr_right ?_)
  rw [toNat_and_31]
  exact shiftLeft_right_iff hb (Nat.mod_lt _ (by decide))

theorem judged_srlv : Judged s ins .srlv := by
  have hlt := Nat.mod_lt (s.regfile (rs ins)).toNat (show 0 < 32 by decide)
  refine (puts_register ..).trans (or_congr_right ?_)
  rw [toNat_and_31]
  exact ushiftRight_eq_iff (by omega) hb

theorem judged_srav : Judged s ins .srav := by
  apply puts_same
  rw [toNat_and_31]
  exact sshiftRight_of_extended (by decide) hb _

end Shifts

/-! Sums, products and quotients of words -/

section Words

variable (ha : Extended 32 (s.regfile (rs ins))) (hb : Extended 32 (s.regfile (rt ins)))
include ha hb

theorem judged_add : Judged s ins .add := by
  simp only [Judged, Integer.computed, Integer.outcome, Integer.Right, sum_eq_low,
    toInt_setWidth_of_extended (show 32 ≤ 64 by decide) ha,
    toInt_setWidth_of_extended (show 32 ≤ 64 by decide) hb]
  exact puts_sum _ _ _ (low_add_eq_ofInt ha hb)

theorem judged_addu : Judged s ins .addu := by
  refine (puts_register ..).trans (or_congr_right ?_)
  rw [← low_add (by decide), ← extended_add_iff (by decide) (by decide) ha hb]
  exact eq_comm

theorem judged_sub : Judged s ins .sub := by
  simp only [Judged, Integer.computed, Integer.outcome, Integer.Right, sum_eq_low,
    toInt_setWidth_of_extended (show 32 ≤ 64 by decide) ha,
    toInt_setWidth_of_extended (show 32 ≤ 64 by decide) hb, puts_some, leaves_orOverflow]
  apply or_congr_right
  split
  case isTrue hfits => exact low_add_eq_ofInt_sub_iff ha hb hfits
  case isFalse => exact Iff.rfl

theorem judged_mult : Judged s ins .mult := by
  simp only [Judged, Integer.computed, Integer.outcome, Integer.Right, Integer.product,
    toInt_setWidth_of_extended (show 32 ≤ 64 by decide) ha,
    toInt_setWidth_of_extended (show 32 ≤ 64 by decide) hb, BitVec.ofInt_mul,
    BitVec.ofInt_toInt, puts_some, leaves_hiLo, sex32_eq, setWidth_sshiftRight, and_self]

theorem judged_multu : Judged s ins .multu := by
  simp only [Judged, Integer.computed, Integer.outcome, Integer.Right, Integer.product,
    puts_some, leaves_hiLo, sex32_eq, setWidth_ushiftRight]
  rw [halves_eq_iff]
  exact multu_right_iff ha hb

theorem judged_div : Judged s ins .div := by
  simp only [Judged, Integer.computed, Integer.outcome, Integer.Right, hostDiv_spec ha hb]
  apply puts_divided
  · intro hdivides
    rw [word_eq_iff hb]
    exact hdivides.1
  · exact sex32_eq _
  · exact sex32_eq _

omit ha in
theorem judged_divu : Judged s ins .divu := by
  simp only [Judged, Integer.computed, Integer.outcome, Integer.Right, hostDivU_spec hb]
  apply puts_divided
  · intro hdivides
    rw [word_eq_iff hb]
    exact hdivides
  · exact sex32_eq _
  · exact sex32_eq _

omit hb in
theorem judged_addi : Judged s ins .addi := by
  have hx := BitVec.toInt_signExtend_of_le (x := imm ins) (show 16 ≤ 64 by decide)
  simp only [Judged, Integer.computed, Integer.outcome, Integer.Right, low_add_immediate,
    toInt_setWidth_of_extended (show 32 ≤ 64 by decide) ha]
  apply puts_sum
  rw [← hx]
  exact low_add_eq_ofInt ha (extended_immediate _)

end Words

theorem judged_subu : Judged s ins .subu := by
  apply puts_same
  rw [sex32_eq]
  exact low_sub (by decide) _ _

theorem judged_slti : Judged s ins .slti := by
  apply puts_same
  rw [sex16_eq, BitVec.slt, BitVec.toInt_signExtend_of_le (by decide)]
  exact truth_decide _

theorem judged_sltiu : Judged s ins .sltiu := by
  apply puts_same
  rw [sex16_eq]
  exact truth_decide _

theorem judged_addiu : Judged s ins .addiu := by
  apply puts_same
  rw [sex32_eq, BitVec.setWidth_add _ _ (by decide), sex16to32_eq]

theorem judged_lui : Judged s ins .lui := by
  apply puts_same
  rw [Fields.shiftLeft_setWidth (n := 16), BitVec.setWidth_eq]
  rfl

theorem judged_daddi : Judged s ins .daddi := by
  have hx := BitVec.toInt_signExtend_of_le (x := imm ins) (show 16 ≤ 64 by decide)
  simp only [Judged, Integer.computed, Integer.outcome, Integer.Right, sex16_eq]
  apply puts_sum
  intro hfits
  rw [← hx, BitVec.ofInt_add, BitVec.ofInt_toInt, BitVec.ofInt_toInt]

theorem judged_daddiu : Judged s ins .daddiu := by
  apply puts_same
  rw [sex16_eq]

end Judged

/-- When the interpreter's result is the architecture's. -/
theorem puts_iff (s : Barrel μ) (i : Integer) (ins : BitVec 32)
    (hwords : ∀ r ∈ i.words ins, Extended 32 (s.regfile r)) :
    Puts s (i.computed s.regfile ins) (i.outcome s.regfile ins) ↔ i.Right s.regfile ins := by
  cases i with
  | sll => exact judged_sll (hwords _ List.mem_cons_self)
  | srl => exact judged_srl (hwords _ List.mem_cons_self)
  | sra => exact judged_sra (hwords _ List.mem_cons_self)
  | sllv => exact judged_sllv (hwords _ (by simp [Integer.words]))
  | srlv => exact judged_srlv (hwords _ (by simp [Integer.words]))
  | srav => exact judged_srav (hwords _ (by simp [Integer.words]))
  | dsllv => exact puts_same _ _ (by rw [toNat_and_63])
  | dsll | dsrl => exact puts_same _ _ rfl
  | dsll32 | dsrl32 | dsra32 => exact puts_same _ _ (by rw [Nat.add_comm])
  | add =>
      exact judged_add (hwords _ (by simp [Integer.words])) (hwords _ (by simp [Integer.words]))
  | addu =>
      exact judged_addu (hwords _ (by simp [Integer.words])) (hwords _ (by simp [Integer.words]))
  | sub =>
      exact judged_sub (hwords _ (by simp [Integer.words])) (hwords _ (by simp [Integer.words]))
  | subu => exact judged_subu
  | and | or | xor | nor | daddu | andi | ori | xori => exact puts_same _ _ rfl
  | slt => exact puts_same _ _ (truth_decide _)
  | sltu => exact puts_same _ _ (truth_decide _)
  | slti => exact judged_slti
  | sltiu => exact judged_sltiu
  | dsubu => exact (puts_register ..).trans (or_congr_right (add_eq_sub_iff _ _))
  | mult =>
      exact judged_mult (hwords _ (by simp [Integer.words])) (hwords _ (by simp [Integer.words]))
  | multu =>
      exact judged_multu (hwords _ (by simp [Integer.words])) (hwords _ (by simp [Integer.words]))
  | div =>
      exact judged_div (hwords _ (by simp [Integer.words])) (hwords _ (by simp [Integer.words]))
  | divu => exact judged_divu (hwords _ (by simp [Integer.words]))
  | addi => exact judged_addi (hwords _ (by simp [Integer.words]))
  | addiu => exact judged_addiu
  | lui => exact judged_lui
  | daddi => exact judged_daddi
  | daddiu => exact judged_daddiu

/-- Exactly when an integer instruction is executed as the architecture says, for every
contents of the registers and all fields. -/
theorem executes_iff_right (node : Node μ) (s : Barrel μ) (tmp64 : BitVec 64) (i : Integer)
    (hsettled : s.Settled) (hins : i.Encodes s.nextIns)
    (hwords : ∀ r ∈ i.words s.nextIns, Extended 32 (s.regfile r))
    (hfetch : (s.advance node).isSome) :
    s.Executes node tmp64 i ↔ i.Right s.regfile s.nextIns :=
  (executes_iff i hsettled hins hfetch).trans (puts_iff s i s.nextIns hwords)

/-- DIV of -7 by 2, and ADD where the sum fits. -/
theorem executes_iff_right_examples :
    (trial 0x0022001A (-7) 2).Executes blank 0 .div ∧
      (trial 0x00221820 (-7) 2).Executes blank 0 .add := by
  constructor
  · apply (executes_iff_right blank _ 0 .div (settled_trial ..) ⟨rfl, rfl⟩ ?_ rfl).mpr
    · exact ⟨by decide, by decide⟩
    · decide
  · apply (executes_iff_right blank _ 0 .add (settled_trial ..) ⟨rfl, rfl⟩ ?_ rfl).mpr
    · exact .inr (.inl (by decide))
    · decide

/-- SUB adds, so that 0 less 1 is 1. -/
theorem not_executes :
    ¬∀ (s : Barrel Unit) (tmp64 : BitVec 64) (i : Integer), s.Settled →
      i.Encodes s.nextIns → (∀ r ∈ i.words s.nextIns, Extended 32 (s.regfile r)) →
      (s.advance blank).isSome → s.Executes blank tmp64 i := by
  intro hclaim
  have hwords : ∀ r ∈ Integer.sub.words (0x00221822 : BitVec 32),
      Extended 32 ((trial 0x00221822 0 1).regfile r) := by decide
  have hsub := hclaim (trial 0x00221822 0 1) 0 .sub (settled_trial ..) ⟨rfl, rfl⟩ hwords rfl
  have hputs := (executes_iff .sub (settled_trial ..) ⟨rfl, rfl⟩ rfl).mp hsub
  have hright := (puts_iff (trial 0x00221822 0 1) .sub 0x00221822 hwords).mp hputs
  rcases hright with hzero | hdifference
  · revert hzero
    decide
  · revert hdifference
    decide

end Barrel

end Prazor.Mips64
