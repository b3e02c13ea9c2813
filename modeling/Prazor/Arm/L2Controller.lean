import Prazor.Bus.CpuBusaccess
import Prazor.Core.Guarded

/-!
# The registers of the L2 cache controller

`arm_L2Cpl310` answers reads of its registers from a table, but computes the index of a lockdown
register from the whole offset; it writes two registers, and a write of the upper half of a
doubleword goes to the register of the lower half, with the data of the lower half.
-/

namespace Prazor.Arm.L2Controller

open Prazor.Tlm Prazor.Bytes

structure ArmL2Cpl310 where
  reg0CacheId : BitVec 32
  reg0CacheType : BitVec 32
  reg1Control : BitVec 32
  reg1AuxControl : BitVec 32
  reg1TagRamControl : BitVec 32
  reg1DataRamControl : BitVec 32
  reg2EvCounterCtrl : BitVec 32
  reg2EvCounter1Cfg : BitVec 32
  reg2EvCounter0Cfg : BitVec 32
  reg2EvCounter1 : BitVec 32
  reg2EvCounter0 : BitVec 32
  reg2IntMask : BitVec 32
  reg2IntMaskStatus : BitVec 32
  reg2IntRawStatus : BitVec 32
  reg2IntClear : BitVec 32
  reg7CacheSync : BitVec 32
  reg7InvPa : BitVec 32
  reg7InvWay : BitVec 32
  reg7CleanPa : BitVec 32
  reg7CleanIndex : BitVec 32
  reg7CleanWay : BitVec 32
  reg7CleanInvPa : BitVec 32
  reg7CleanInvIndex : BitVec 32
  reg7CleanInvWay : BitVec 32
  reg9DLockdown : Fin 8 → BitVec 32
  reg9ILockdown : Fin 8 → BitVec 32
  reg9LockLineEn : BitVec 32
  reg9UnlockWay : BitVec 32
  reg12AddrFilteringStart : BitVec 32
  reg12AddrFilteringEnd : BitVec 32
  reg15DebugCtrl : BitVec 32
  reg15PrefetchCtrl : BitVec 32
  reg15PowerCtrl : BitVec 32

/-- The constructor. -/
def new : ArmL2Cpl310 where
  reg0CacheId := 0x410000C8
  reg0CacheType := 0x9E300300
  reg1Control := 0
  reg1AuxControl := 0x02060000
  reg1TagRamControl := 0x777
  reg1DataRamControl := 0x777
  reg2EvCounterCtrl := 0
  reg2EvCounter1Cfg := 0
  reg2EvCounter0Cfg := 0
  reg2EvCounter1 := 0
  reg2EvCounter0 := 0
  reg2IntMask := 0
  reg2IntMaskStatus := 0
  reg2IntRawStatus := 0
  reg2IntClear := 0
  reg7CacheSync := 0
  reg7InvPa := 0
  reg7InvWay := 0
  reg7CleanPa := 0
  reg7CleanIndex := 0
  reg7CleanWay := 0
  reg7CleanInvPa := 0
  reg7CleanInvIndex := 0
  reg7CleanInvWay := 0
  reg9DLockdown := fun _ => 0
  reg9ILockdown := fun _ => 0
  reg9LockLineEn := 0
  reg9UnlockWay := 0
  reg12AddrFilteringStart := 0x40000001
  reg12AddrFilteringEnd := 0xFFF00000
  reg15DebugCtrl := 0
  reg15PrefetchCtrl := 0
  reg15PowerCtrl := 0

/-! ## Accesses -/

def armL2cpl310Base : BitVec 32 := 0xF8F02000

/-- `adr - ARM_L2CPL310_BASE` -/
def offset (trans : Payload) : BitVec 32 := trans.address.setWidth 32 - armL2cpl310Base

/-- The cases of a read but those of the lockdown registers. -/
def registers (s : ArmL2Cpl310) : List (BitVec 32 × BitVec 32) :=
  [(0x0, s.reg0CacheId), (0x4, s.reg0CacheType), (0x100, s.reg1Control),
    (0x104, s.reg1AuxControl), (0x108, s.reg1TagRamControl), (0x10C, s.reg1DataRamControl),
    (0x200, s.reg2EvCounterCtrl), (0x204, s.reg2EvCounter1Cfg), (0x208, s.reg2EvCounter0Cfg),
    (0x20C, s.reg2EvCounter1), (0x210, s.reg2EvCounter0), (0x214, s.reg2IntMask),
    (0x218, s.reg2IntMaskStatus), (0x21C, s.reg2IntRawStatus), (0x220, s.reg2IntClear),
    (0x730, s.reg7CacheSync), (0x770, s.reg7InvPa), (0x77C, s.reg7InvWay),
    (0x7B0, s.reg7CleanPa), (0x7B8, s.reg7CleanIndex), (0x7BC, s.reg7CleanWay),
    (0x7F0, s.reg7CleanInvPa), (0x7F8, s.reg7CleanInvIndex), (0x7FC, s.reg7CleanInvWay),
    (0x950, s.reg9LockLineEn), (0x954, s.reg9UnlockWay),
    (0xC00, s.reg12AddrFilteringStart), (0xC04, s.reg12AddrFilteringEnd),
    (0xF40, s.reg15DebugCtrl), (0xF60, s.reg15PrefetchCtrl), (0xF80, s.reg15PowerCtrl)]

/-- The case labels of the lockdown registers. -/
def lockdownOffsets : List (BitVec 32) :=
  [0x900, 0x904, 0x908, 0x90C, 0x910, 0x914, 0x918, 0x91C,
    0x920, 0x924, 0x928, 0x92C, 0x930, 0x934, 0x938, 0x93C]

/-- An element of an array of eight; `none` outside. -/
def element (array : Fin 8 → BitVec 32) (index : BitVec 32) : Option (BitVec 32) :=
  if hindex : index.toNat < 8 then some (array ⟨index.toNat, hindex⟩) else none

/-- A read of a lockdown register. -/
def readLockdown (s : ArmL2Cpl310) (offset : BitVec 32) : Option (BitVec 32) :=
  let index := offset / 8
  let remainder := offset % 8
  if remainder = 0 then element s.reg9DLockdown index
  else if remainder = 4 then element s.reg9ILockdown index
  else none

/-- The data of a read; `none` when an assertion fails or a read is outside an array. -/
def readData (s : ArmL2Cpl310) (offset : BitVec 32) : Option (BitVec 32) :=
  if offset ∈ lockdownOffsets then readLockdown s offset
  else (registers s).lookup offset

/-- What a write does to the registers.  The offset was taken before 4 is added to the address. -/
def writeData (s : ArmL2Cpl310) (offset data : BitVec 32) : ArmL2Cpl310 :=
  if offset = 0x108 then { s with reg1TagRamControl := data }
  else if offset = 0x10C then { s with reg1DataRamControl := data }
  else s

/-- `b_access`; `none` when an assertion fails. -/
def bAccess (s : ArmL2Cpl310) (trans : Payload) : Option (ArmL2Cpl310 × Payload) :=
  match trans.command with
  | .read => (readData s (offset trans)).map fun data =>
      (s, { trans with data := memcpy 4 (bytes32 data) trans.data, response := .ok })
  | .write =>
      if trans.dataLength = 8 then
        some (writeData s (offset trans) ((load64 trans.data).setWidth 32),
          { trans with response := .ok })
      else none
  | .ignore => none

def step (s : ArmL2Cpl310) (trans : Payload) : Option ArmL2Cpl310 := (bAccess s trans).map (·.1)

/-! ## What the registers are for -/

/-- The lockdown registers at their offsets, in pairs. -/
def lockdowns (s : ArmL2Cpl310) : List (BitVec 32 × BitVec 32) :=
  (List.finRange 8).flatMap fun k =>
    [(0x900 + 8 * BitVec.ofNat 32 k.val, s.reg9DLockdown k),
      (0x904 + 8 * BitVec.ofNat 32 k.val, s.reg9ILockdown k)]

/-- The register at an offset. -/
def registerAt (s : ArmL2Cpl310) (offset : BitVec 32) : Option (BitVec 32) :=
  (registers s ++ lockdowns s).lookup offset

/-- The byte enables of the upper half of a doubleword. -/
def upperLanes (trans : Payload) : Bool :=
  match trans.byteEnable with
  | none => false
  | some lanes => lanes 4 = 0xFF

/-- A write of one half of a doubleword. -/
def HalfWrite (trans : Payload) : Prop :=
  trans.dataLength = 8 ∧ ∃ lanes, trans.byteEnable = some lanes ∧
    ((∀ i < 8, lanes i = if i < 4 then 0xFF else 0) ∨
      ∀ i < 8, lanes i = if i < 4 then 0 else 0xFF)

/-- The offset of the half written. -/
def writtenOffset (trans : Payload) : BitVec 32 :=
  if upperLanes trans then offset trans + 4 else offset trans

/-- The data of the half written. -/
def writtenData (trans : Payload) : BitVec 32 :=
  if upperLanes trans then load32 fun i => trans.data (4 + i) else load32 trans.data

/-- A read or a write of half a doubleword at the offset of a register. -/
def Accepted (trans : Payload) : Prop :=
  (trans.command = .read ∧ (registerAt new (offset trans)).isSome) ∨
    (trans.command = .write ∧ HalfWrite trans ∧ (registerAt new (writtenOffset trans)).isSome)

/-- A read returns the register at its offset.  A write leaves its data there and no other
register changed. -/
def Served (s : ArmL2Cpl310) (trans : Payload) : Prop :=
  ∃ s' answer, bAccess s trans = some (s', answer) ∧
    match trans.command with
    | .read => s' = s ∧ registerAt s (offset trans) = some (load32 answer.data)
    | _ => registerAt s' (writtenOffset trans) = some (writtenData trans) ∧
        ∀ other, other ≠ writtenOffset trans → registerAt s' other = registerAt s other

/-- A read is not of a lockdown register.  A write is of one of the two registers that can be
written, through the lower lanes, or what it leaves there is there already. -/
def Clean (s : ArmL2Cpl310) (trans : Payload) : Prop :=
  match trans.command with
  | .read => offset trans ∉ lockdownOffsets
  | _ => (upperLanes trans = false ∧ (offset trans = 0x108 ∨ offset trans = 0x10C)) ∨
      (registerAt s (writtenOffset trans) = some (writtenData trans) ∧
        (offset trans = 0x108 → s.reg1TagRamControl = load32 trans.data))

variable {s s' : ArmL2Cpl310} {trans : Payload} {o : BitVec 32}

/-! ## The table -/

/-- A table with one value replaced. -/
theorem lookup_replaced (pre post : List (BitVec 32 × BitVec 32)) {key : BitVec 32}
    (value value' : BitVec 32) (hkey : ∀ entry ∈ pre, key ≠ entry.1) (other : BitVec 32) :
    (pre ++ (key, value') :: post).lookup other =
      if other = key then some value' else (pre ++ (key, value) :: post).lookup other := by
  by_cases hother : other = key
  · have hpre : pre.lookup other = none := by
      rw [List.lookup_eq_none_iff]
      intro entry hmem
      simpa [hother] using hkey entry hmem
    rw [List.lookup_append, List.lookup_cons, hpre, if_pos hother, hother, beq_self_eq_true]
    rfl
  · rw [List.lookup_append, List.lookup_append, List.lookup_cons, List.lookup_cons,
      if_neg hother, beq_false_of_ne hother]

/-- A write of one of the two registers that can be written. -/
theorem registerAt_writeData {key : BitVec 32} (hkey : key = 0x108 ∨ key = 0x10C)
    (data other : BitVec 32) :
    registerAt (writeData s key data) other =
      if other = key then some data else registerAt s other := by
  rcases hkey with hkey | hkey
  · subst hkey
    exact lookup_replaced ((registers s).take 4) ((registers s).drop 5 ++ lockdowns s)
      s.reg1TagRamControl data (by simp [registers]) other
  · subst hkey
    exact lookup_replaced ((registers s).take 5) ((registers s).drop 6 ++ lockdowns s)
      s.reg1DataRamControl data (by simp [registers]) other

/-- There is a register at the offsets that are keys of the table. -/
theorem lookup_isSome (table : List (BitVec 32 × BitVec 32)) (o : BitVec 32) :
    (table.lookup o).isSome ↔ o ∈ table.map Prod.fst := by
  rw [List.lookup_isSome_iff, List.mem_map]
  constructor
  · rintro ⟨entry, hmem, hkey⟩
    exact ⟨entry, hmem, (eq_of_beq hkey).symm⟩
  · rintro ⟨entry, hmem, hkey⟩
    exact ⟨entry, hmem, beq_iff_eq.mpr hkey.symm⟩

/-- The offsets are those of any state. -/
theorem registerAt_isSome (s : ArmL2Cpl310) (o : BitVec 32) :
    (registerAt s o).isSome ↔ (registerAt new o).isSome := by
  have hkeys : (registers s ++ lockdowns s).map Prod.fst =
      (registers new ++ lockdowns new).map Prod.fst := rfl
  rw [registerAt, registerAt, lookup_isSome, lookup_isSome, hkeys]

/-! ## Reads -/

/-- The index of a lockdown register is at least 288. -/
theorem lockdown_index (ho : o ∈ lockdownOffsets) : 288 ≤ (o / 8).toNat := by
  have hlow : 0x900 ≤ o.toNat := by
    simp only [lockdownOffsets, List.mem_cons, List.not_mem_nil, or_false] at ho
    rcases ho with ho | ho | ho | ho | ho | ho | ho | ho | ho | ho | ho | ho | ho | ho | ho | ho <;>
      simp [ho]
  have height : (8 : BitVec 32).toNat = 8 := rfl
  rw [BitVec.toNat_udiv, height]
  omega

theorem element_eq_none {array : Fin 8 → BitVec 32} {index : BitVec 32}
    (hindex : 288 ≤ index.toNat) : element array index = none :=
  dif_neg (by omega)

theorem readLockdown_eq_none (ho : o ∈ lockdownOffsets) : readLockdown s o = none := by
  simp only [readLockdown, element_eq_none (lockdown_index ho), ite_self]

/-- All other registers are read where they are. -/
theorem readData_eq (ho : o ∉ lockdownOffsets) : readData s o = registerAt s o := by
  have hkeys : (lockdowns s).map Prod.fst = lockdownOffsets := rfl
  have hnone : (lockdowns s).lookup o = none := by
    rw [← Option.not_isSome_iff_eq_none, lookup_isSome, hkeys]
    exact ho
  rw [readData, if_neg ho, registerAt, List.lookup_append, hnone, Option.or_none]

theorem read_served_iff (hread : trans.command = .read)
    (haccepted : (registerAt new (offset trans)).isSome) : Served s trans ↔ Clean s trans := by
  simp only [Served, Clean, hread, bAccess]
  constructor
  · rintro ⟨s', answer, haccess, -⟩ hlockdown
    rw [readData, if_pos hlockdown, readLockdown_eq_none hlockdown] at haccess
    cases haccess
  · intro hclean
    obtain ⟨data, hdata⟩ :=
      Option.isSome_iff_exists.mp ((registerAt_isSome s (offset trans)).mpr haccepted)
    rw [readData_eq hclean, hdata]
    refine ⟨_, _, rfl, rfl, ?_⟩
    rw [load32_memcpy, load32_bytes32]

/-! ## Writes -/

theorem bAccess_write (hwrite : trans.command = .write) (hlength : trans.dataLength = 8) :
    bAccess s trans = some (writeData s (offset trans) (load32 trans.data),
      { trans with response := .ok }) := by
  rw [bAccess, hwrite, ← setWidth_load64 trans.data]
  exact if_pos hlength

/-- What a write leaves, without the transaction. -/
theorem write_served (hwrite : trans.command = .write) (hlength : trans.dataLength = 8) :
    Served s trans ↔
      registerAt (writeData s (offset trans) (load32 trans.data)) (writtenOffset trans) =
          some (writtenData trans) ∧
        ∀ other, other ≠ writtenOffset trans →
          registerAt (writeData s (offset trans) (load32 trans.data)) other =
            registerAt s other := by
  simp only [Served, bAccess_write hwrite hlength, hwrite, Option.some.injEq, Prod.mk.injEq]
  constructor
  · rintro ⟨s', answer, ⟨hs', -⟩, hserved⟩
    rw [hs']
    exact hserved
  · intro hserved
    exact ⟨_, _, ⟨rfl, rfl⟩, hserved⟩

/-- Behind the two registers there is none. -/
theorem no_register_behind : ¬(registerAt new (0x10C + 4)).isSome := by decide

theorem write_served_iff (hwrite : trans.command = .write) (hhalf : HalfWrite trans)
    (haccepted : (registerAt new (writtenOffset trans)).isSome) :
    Served s trans ↔ Clean s trans := by
  rw [write_served hwrite hhalf.1]
  simp only [Clean, hwrite]
  by_cases hkey : offset trans = 0x108 ∨ offset trans = 0x10C
  · simp only [registerAt_writeData hkey]
    cases hupper : upperLanes trans with
    | false =>
        have hoffset : writtenOffset trans = offset trans := by simp [writtenOffset, hupper]
        have hdata : writtenData trans = load32 trans.data := by simp [writtenData, hupper]
        rw [hoffset, hdata, if_pos rfl]
        exact iff_of_true ⟨rfl, fun other hother => if_neg hother⟩ (.inl ⟨rfl, hkey⟩)
    | true =>
        have hoffset : writtenOffset trans = offset trans + 4 := by simp [writtenOffset, hupper]
        have hfirst : offset trans = 0x108 := by
          apply hkey.resolve_right
          intro hsecond
          rw [hoffset, hsecond] at haccepted
          exact no_register_behind haccepted
        have hne : (0x108 : BitVec 32) + 4 ≠ 0x108 := by decide
        have hold : registerAt s 0x108 = some s.reg1TagRamControl := rfl
        rw [hoffset, hfirst, if_neg hne]
        constructor
        · rintro ⟨hthere, hothers⟩
          have hlower := hothers 0x108 hne.symm
          rw [if_pos rfl, hold, Option.some.injEq] at hlower
          exact .inr ⟨hthere, fun _ => hlower.symm⟩
        · rintro (⟨hlower, -⟩ | ⟨hthere, hsame⟩)
          · cases hlower
          · refine ⟨hthere, fun other _ => ?_⟩
            by_cases hother : other = 0x108
            · rw [if_pos hother, hother, hold, hsame rfl]
            · rw [if_neg hother]
  · -- No register is written.
    obtain ⟨htag, hdata⟩ := not_or.mp hkey
    rw [writeData, if_neg htag, if_neg hdata]
    constructor
    · rintro ⟨hthere, -⟩
      exact .inr ⟨hthere, fun hfirst => absurd hfirst htag⟩
    · rintro (⟨-, hwritable⟩ | ⟨hthere, -⟩)
      · exact absurd hwritable hkey
      · exact ⟨hthere, fun _ _ => rfl⟩

/-! ## All runs -/

theorem served_iff (haccepted : Accepted trans) : Served s trans ↔ Clean s trans := by
  rcases haccepted with ⟨hread, hregister⟩ | ⟨hwrite, hhalf, hregister⟩
  · exact read_served_iff hread hregister
  · exact write_served_iff hwrite hhalf hregister

/-- In a run of accepted accesses all are served exactly when no read is of a lockdown register
and every write is of the lower half of one of the two registers or leaves nothing new. -/
theorem run_served_iff (accesses : List Payload)
    (haccepted : ∀ trans ∈ accesses, Accepted trans) :
    Guarded.Meets step Served new accesses ↔ Guarded.Meets step Clean new accesses :=
  Guarded.meets_congr (fun _ trans hmem => served_iff (haccepted trans hmem)) new

/-- The tag RAM control register is written through the lower lanes and read back. -/
theorem run_served_iff_tag :
    Guarded.Meets step Served new
      [Bus.setMem32 0 0xF8F02108 0x121, Bus.memRead 0xF8F02108 2 0] := by
  have hread : offset (Bus.memRead 0xF8F02108 2 0) ∉ lockdownOffsets := by decide
  apply (run_served_iff [Bus.setMem32 0 0xF8F02108 0x121, Bus.memRead 0xF8F02108 2 0] ?_).mpr
  · exact ⟨.inl ⟨by decide, .inl rfl⟩, fun s _ => ⟨hread, fun _ _ => trivial⟩⟩
  · intro trans hmem
    simp only [List.mem_cons, List.not_mem_nil, or_false] at hmem
    rcases hmem with hmem | hmem
    · subst hmem
      exact .inr ⟨rfl, ⟨rfl, _, rfl, .inl (by decide)⟩, by decide⟩
    · subst hmem
      exact .inl ⟨rfl, by decide⟩

/-- The first lockdown register is read outside its array, and a write of the data RAM control
register through the upper lanes goes to the tag RAM control register. -/
theorem not_served :
    (Accepted (Bus.memRead 0xF8F02900 2 0) ∧ ¬Served new (Bus.memRead 0xF8F02900 2 0)) ∧
      Accepted (Bus.setMem32 0 0xF8F0210C 0x121) ∧
        ¬Served new (Bus.setMem32 0 0xF8F0210C 0x121) := by
  have hlockdown : Accepted (Bus.memRead 0xF8F02900 2 0) := .inl ⟨rfl, by decide⟩
  have hupper : Accepted (Bus.setMem32 0 0xF8F0210C 0x121) :=
    .inr ⟨rfl, ⟨rfl, _, rfl, .inr (by decide)⟩, by decide⟩
  refine ⟨⟨hlockdown, ?_⟩, hupper, ?_⟩
  · rw [served_iff hlockdown]
    exact fun hclean => hclean (by decide)
  · rw [served_iff hupper]
    rintro (⟨hlower, -⟩ | ⟨hthere, -⟩)
    · exact absurd hlower (by decide)
    · exact absurd hthere (by decide)

end Prazor.Arm.L2Controller
