import Prazor.Arm.BranchTargetBuffer

/-!
# Branches through the buffer go where the trampoline would

A branch that the buffer answers must go where the trampoline at its target
would go at that moment.  The buffer learns of memory by the stores of its own
core alone, by the address of the store and the word in the register, so this
holds only while the other stores leave alone the vias and the trampolines the
buffer knows.
-/

namespace Prazor.Arm.Abtb

section Guard

/-- The buffer knows of a trampoline at the address: it waits for a store to its
via, or has it installed. -/
def Buffer.Knows (mask : Word) (abt : Buffer) (src : Word) : Prop :=
  (∃ via, abt.viaToSrc via = some src) ∨ src ≠ -1 ∧ ∃ i ≤ mask, (abt.table i).tag = src

/-- New memory has the trampolines the buffer knows. -/
def KeepsTrampolines (mask : Word) (cpu : Cpu) (mem : Memory) : Prop :=
  ∀ src, cpu.abt.Knows mask src → trampoline mem src = trampoline cpu.mem src

/-- Memory after a store that may have faulted. -/
def Cpu.written (cpu : Cpu) (store : Store) (done : Bool) : Memory :=
  if done then write cpu.mem store else cpu.mem

/-- The guard.  What looks like the last instruction of a trampoline is one, and
the buffer does not wait at its via for another.  A store leaves the known
trampolines alone; it changes the via of an installed one only when the buffer
sees it with the address of the via; and one at a via the buffer waits for
leaves there the word in the register. -/
def Careful (mask : Word) (cpu : Cpu) : Event → Prop
  | .instr effect => ∀ ins pc, cpu.monitored effect = some (ins, pc) → cpu.abt.tDet = 3 →
      isLdrPc ins = true →
      trampoline cpu.mem (pc - 16) = some (operandAddress ins cpu.ip) ∧
      ∀ src, cpu.abt.viaToSrc (operandAddress ins cpu.ip) = some src → src = pc - 16
  | .exception _ => True
  | .store store done =>
      KeepsTrampolines mask cpu (cpu.written store done) ∧
      (∀ via, cpu.abt.abtbViaEntries via = true →
        via = store.address ∨ word (cpu.written store done) via = word cpu.mem via) ∧
      (cpu.abt.via store.address = true →
        word (cpu.written store done) store.address = store.value.setWidth 32)
  | .foreign store =>
      KeepsTrampolines mask cpu (write cpu.mem store) ∧
      ∀ via, cpu.abt.abtbViaEntries via = true →
        word (write cpu.mem store) via = word cpu.mem via

end Guard

section Invariant

/-- What the buffer has installed is right in memory: the trampoline is there and
its via, which the buffer watches, holds the destination. -/
def Installed (mask : Word) (mem : Memory) (abt : Buffer) : Prop :=
  ∀ i ≤ mask, (abt.table i).tag ≠ -1 → ∃ via, trampoline mem (abt.table i).tag = some via ∧
    abt.abtbViaEntries via = true ∧ word mem via = (abt.table i).finalDest

structure Inv (mask : Word) (mem : Memory) (abt : Buffer) : Prop where
  keys : ∀ via, abt.via via = (abt.viaToSrc via).isSome
  awaited : ∀ via src, abt.viaToSrc via = some src → trampoline mem src = some via
  installed : Installed mask mem abt

/-- A branch to a place the buffer answers for goes where the trampoline there
would go. -/
def Invisible (mask : Word) (cpu : Cpu) : Prop :=
  ∀ pc cpsr answer, pc ≠ -1 → cpu.abt.query mask pc cpsr = some answer →
    ∃ via, trampoline cpu.mem pc = some via ∧
      answer = Buffer.branchTo (word cpu.mem via) cpsr

variable {mask : Word} {cpu next : Cpu} {mem : Memory} {abt abt' : Buffer}
variable {address src data ins ip pc : Word}

theorem hash_le (mask address : Word) : Buffer.hash mask address ≤ mask := by
  rw [Buffer.hash, BitVec.le_def, BitVec.toNat_and]
  exact Nat.and_le_right

theorem Inv.invisible (h : Inv mask cpu.mem cpu.abt) : Invisible mask cpu := by
  intro pc cpsr answer hpc hquery
  rw [Buffer.query] at hquery
  split_ifs at hquery with htag
  obtain ⟨via, htrampoline, -, hword⟩ := h.installed (Buffer.hash mask pc)
    (hash_le mask pc) (by rwa [htag])
  rw [htag] at htrampoline
  refine ⟨via, htrampoline, ?_⟩
  rw [hword]
  exact (Option.some.inj hquery).symm

theorem Inv.made (mem : Memory) (finalDest : Word → Word) : Inv mask mem (.made finalDest) where
  keys _ := rfl
  awaited _ _ hsrc := by cases hsrc
  installed _ _ htag := absurd rfl htag

/-- The buffer waits for the trampoline without failing. -/
theorem Inv.await (h : Inv mask mem abt) (htrampoline : trampoline mem src = some address)
    (hsole : ∀ other, abt.viaToSrc address = some other → other = src) :
    ∃ abt', abt.await address src = some abt' ∧ Inv mask mem abt' := by
  rw [Buffer.await]
  cases hsrc : abt.viaToSrc address with
  | some other =>
      have hvia : abt.via address = true := by rw [h.keys, hsrc]; rfl
      rw [if_neg (by simp [hvia]), hsole other hsrc, if_pos rfl]
      exact ⟨abt, rfl, h⟩
  | none =>
      have hvia : abt.via address = false := by rw [h.keys, hsrc]; rfl
      rw [if_pos hvia, if_pos rfl]
      refine ⟨_, rfl, ?_, ?_, h.installed⟩
      · intro via
        by_cases heq : via = address
        · simp only [heq, Function.update_self, Option.isSome_some]
        · simp only [Function.update_of_ne heq, h.keys via]
      · intro via src' hsrc'
        by_cases heq : via = address
        · simp only [heq, Function.update_self, Option.some.injEq] at hsrc'
          rw [← hsrc', htrampoline, heq]
        · simp only [Function.update_of_ne heq] at hsrc'
          exact h.awaited via src' hsrc'

/-- The state of the matcher is no part of the invariant. -/
theorem Inv.tDet (h : Inv mask mem abt) (tDet : ℕ)  : Inv mask mem { abt with tDet := tDet } :=
  ⟨h.keys, h.awaited, h.installed⟩

/-- Watching an instruction keeps the invariant and fails no assertion. -/
theorem Inv.monitor (h : Inv mask mem abt)
    (hguard : abt.tDet = 3 → isLdrPc ins = true →
      trampoline mem (pc - 16) = some (operandAddress ins ip) ∧
      ∀ src, abt.viaToSrc (operandAddress ins ip) = some src → src = pc - 16) :
    ∃ abt', abt.ins32Monitor ins ip pc = some abt' ∧ Inv mask mem abt' := by
  rw [Buffer.ins32Monitor]
  by_cases hblx : abt.tDet = 0 ∧ ins &&& 0xF800D000 = 0xF000C000
  · exact ⟨_, if_pos hblx, h.tDet 1⟩
  rw [if_neg hblx]
  by_cases hone : abt.tDet = 1
  · exact ⟨_, if_pos hone, h.tDet _⟩
  rw [if_neg hone]
  by_cases htwo : abt.tDet = 2
  · exact ⟨_, if_pos htwo, h.tDet _⟩
  rw [if_neg htwo]
  by_cases hthree : abt.tDet = 3
  · rw [if_pos hthree]
    by_cases hldr : isLdrPc ins = true
    · obtain ⟨htrampoline, hsole⟩ := hguard hthree hldr
      obtain ⟨abt', habt', hinv⟩ := h.await htrampoline hsole
      rw [if_pos hldr, habt']
      exact ⟨_, rfl, hinv.tDet 0⟩
    · exact ⟨_, if_neg hldr, h.tDet 0⟩
  · exact ⟨_, if_neg hthree, h⟩

/-- Memory may change where the buffer does not know of it. -/
theorem Inv.of_keeps {mem' : Memory} (h : Inv mask mem abt)
    (htrampolines : ∀ src, abt.Knows mask src → trampoline mem' src = trampoline mem src)
    (hvias : ∀ via, abt.abtbViaEntries via = true → word mem' via = word mem via) :
    Inv mask mem' abt where
  keys := h.keys
  awaited via src hsrc := by
    rw [htrampolines src (.inl ⟨via, hsrc⟩)]
    exact h.awaited via src hsrc
  installed i hi htag := by
    obtain ⟨via, htrampoline, hvia, hword⟩ := h.installed i hi htag
    refine ⟨via, ?_, hvia, ?_⟩
    · rw [htrampolines _ (.inr ⟨htag, i, hi, rfl⟩), htrampoline]
    · rw [hvias via hvia, hword]

/-- A store at an address leaves the buffer without entries for it. -/
theorem Inv.flush (h : Inv mask mem abt) (address : Word) :
    Inv mask mem (abt.flush mask address) ∧ (abt.flush mask address).via = abt.via ∧
      (abt.flush mask address).viaToSrc = abt.viaToSrc ∧
      (abt.flush mask address).abtbViaEntries address = false ∧
      (∀ via, (abt.flush mask address).abtbViaEntries via = true →
        abt.abtbViaEntries via = true) ∧
      ∀ src, (abt.flush mask address).Knows mask src → abt.Knows mask src := by
  rw [Buffer.flush]
  split_ifs with hvia
  · have hinvalid : ∀ i ≤ mask, ((abt.invalidateAll mask).table i).tag = -1 := by
      intro i hi
      simp only [Buffer.invalidateAll, if_pos hi]
    refine ⟨⟨h.keys, h.awaited, fun i hi htag => absurd (hinvalid i hi) htag⟩, rfl, rfl, rfl,
      nofun, ?_⟩
    rintro src (hawaited | ⟨hsrc, i, hi, htag⟩)
    · exact .inl hawaited
    · exact absurd (htag.symm.trans (hinvalid i hi)) hsrc
  · exact ⟨h, rfl, rfl, by simpa using hvia, fun _ => id, fun _ => id⟩

/-- Installing the trampoline whose via holds the word stored. -/
theorem Inv.install (h : Inv mask mem abt) (hsrc : abt.viaToSrc address = some src)
    (hword : word mem address = data) : Inv mask mem (abt.install mask address src data) where
  keys via := by
    simp only [Buffer.install]
    by_cases heq : via = address
    · rw [heq, Function.update_self, Function.update_self]
      rfl
    · rw [Function.update_of_ne heq, Function.update_of_ne heq, h.keys]
  awaited via src' hsrc' := by
    simp only [Buffer.install] at hsrc'
    by_cases heq : via = address
    · rw [heq, Function.update_self] at hsrc'
      cases hsrc'
    · rw [Function.update_of_ne heq] at hsrc'
      exact h.awaited via src' hsrc'
  installed i hi htag := by
    simp only [Buffer.install] at htag ⊢
    by_cases heq : i = Buffer.hash mask src
    · simp only [heq, Function.update_self]
      exact ⟨address, h.awaited address src hsrc, Function.update_self .., hword⟩
    · rw [Function.update_of_ne heq] at htag ⊢
      obtain ⟨via, htrampoline, hvia, hdest⟩ := h.installed i hi htag
      refine ⟨via, htrampoline, ?_, hdest⟩
      by_cases hva : via = address
      · rw [hva, Function.update_self]
      · rw [Function.update_of_ne hva, hvia]

/-- A store that the buffer sees keeps the invariant and fails no assertion. -/
theorem Inv.snoop {mem' : Memory} (h : Inv mask mem abt)
    (htrampolines : ∀ src, abt.Knows mask src → trampoline mem' src = trampoline mem src)
    (hvias : ∀ via, abt.abtbViaEntries via = true →
      via = address ∨ word mem' via = word mem via)
    (hword : abt.via address = true → word mem' address = data) :
    ∃ abt', abt.writtenAddressSnoop mask address data = some abt' ∧ Inv mask mem' abt' := by
  obtain ⟨hflushed, hvia, hviaToSrc, hself, hsub, hknows⟩ := h.flush address
  have hkept : Inv mask mem' (abt.flush mask address) :=
    hflushed.of_keeps (fun src hsrc => htrampolines src (hknows src hsrc)) fun via hinstalled =>
      (hvias via (hsub via hinstalled)).resolve_left fun heq => by
        rw [heq, hself] at hinstalled
        cases hinstalled
  rw [Buffer.writtenAddressSnoop]
  by_cases hwaits : (abt.flush mask address).via address = true
  · rw [if_pos hwaits]
    have hsome := hkept.keys address
    rw [hwaits] at hsome
    obtain ⟨src, hsrc⟩ := Option.isSome_iff_exists.mp hsome.symm
    rw [hsrc]
    exact ⟨_, rfl, hkept.install hsrc (hword (hvia ▸ hwaits))⟩
  · exact ⟨_, if_neg hwaits, hkept⟩

end Invariant

section Detection

variable {mask : Word} {cpu : Cpu} {mem : Memory} {ins ip src via : Word}

/-- The address the matcher finds is the one the instruction loads from. -/
theorem operandAddress_of_isLdrPc (hldr : isLdrPc ins = true) :
    operandAddress ins ip = ip + (ins &&& 0xFFF) := by
  have hpattern : ins &&& 0xFFFFF000 = 0xE5BCF000 := by
    rw [isLdrPc, beq_iff_eq] at hldr
    exact hldr
  have hadd : ins.getLsbD 23 = true := by
    have hbit := congrArg (fun word : Word => word.getLsbD 23) hpattern
    simpa using hbit
  have hindex : 24 < ins.toNat := by
    have hle : (ins &&& 0xFFFFF000).toNat ≤ ins.toNat := by
      rw [BitVec.toNat_and]
      exact Nat.and_le_left
    rw [hpattern] at hle
    exact lt_of_lt_of_le (by decide) hle
  rw [operandAddress, if_pos hindex, if_pos hadd]

theorem isAddPc_of_isAddIp (hadd : isAddIp ins = true) : isAddPc ins = false := by
  rw [isAddIp, beq_iff_eq] at hadd
  rw [isAddPc, hadd]
  decide

theorem not_isAdd_of_isLdrPc (hldr : isLdrPc ins = true) :
    isAddPc ins = false ∧ isAddIp ins = false := by
  rw [isLdrPc, beq_iff_eq] at hldr
  rw [isAddPc, isAddIp, hldr]
  decide

/-- The three instructions of a trampoline. -/
theorem trampoline_eq_some :
    trampoline mem src = some via ↔
      isAddPc (word mem src) = true ∧ isAddIp (word mem (src + 4)) = true ∧
        isLdrPc (word mem (src + 8)) = true ∧
        src + 8 + expandImm (word mem src) + expandImm (word mem (src + 4)) +
          (word mem (src + 8) &&& 0xFFF) = via := by
  rw [trampoline]
  split_ifs with hall <;> simp only [Bool.and_eq_true, not_and] at hall
  · simp only [hall, true_and, Option.some.injEq]
  · simp only [false_iff]
    rintro ⟨haddPc, haddIp, hldr, -⟩
    exact hall ⟨haddPc, haddIp⟩ hldr

variable {effect : Effect}

theorem monitored_arm (hthumb : cpu.thumb = false) :
    cpu.monitored effect = some (word cpu.mem cpu.pc, cpu.pc + 8) := by
  simp [Cpu.monitored, hthumb]

theorem step_addPc (hthumb : cpu.thumb = false) (hdet : cpu.abt.tDet = 1)
    (heffect : effect.stopped = false) (hadd : isAddPc (word cpu.mem cpu.pc) = true) :
    cpu.step mask (.instr effect) = some { cpu with
      pc := cpu.pc + 4
      ip := cpu.pc + 8 + expandImm (word cpu.mem cpu.pc)
      abt := { cpu.abt with tDet := 2 } } := by
  simp [Cpu.step, Cpu.watch, monitored_arm hthumb, Buffer.ins32Monitor, hdet, hadd,
    Cpu.execute, hthumb, heffect]

theorem step_addIp (hthumb : cpu.thumb = false) (hdet : cpu.abt.tDet = 2)
    (heffect : effect.stopped = false) (hadd : isAddIp (word cpu.mem cpu.pc) = true) :
    cpu.step mask (.instr effect) = some { cpu with
      pc := cpu.pc + 4
      ip := cpu.ip + expandImm (word cpu.mem cpu.pc)
      abt := { cpu.abt with tDet := 3 } } := by
  simp [Cpu.step, Cpu.watch, monitored_arm hthumb, Buffer.ins32Monitor, hdet, hadd,
    Cpu.execute, hthumb, heffect, isAddPc_of_isAddIp hadd]

theorem step_ldrPc (hthumb : cpu.thumb = false) (hdet : cpu.abt.tDet = 3)
    (heffect : effect.stopped = false) (hldr : isLdrPc (word cpu.mem cpu.pc) = true)
    (hvia : cpu.ip + (word cpu.mem cpu.pc &&& 0xFFF) = via) :
    cpu.step mask (.instr effect) =
      (cpu.abt.await via (cpu.pc - 8)).map fun abt => { cpu with
        pc := (Buffer.branchTo (word cpu.mem via) cpu.cpsr).1
        ip := via
        cpsr := (Buffer.branchTo (word cpu.mem via) cpu.cpsr).2
        abt := { abt with tDet := 0 } } := by
  have hsrc : cpu.pc + 8 - 16 = cpu.pc - 8 := by bv_omega
  have hwatch : cpu.watch effect =
      (cpu.abt.await via (cpu.pc - 8)).map fun abt => { abt with tDet := 0 } := by
    rw [Cpu.watch, monitored_arm hthumb]
    simp only
    rw [Buffer.ins32Monitor, if_neg (by simp [hdet]), if_neg (by simp [hdet]),
      if_neg (by simp [hdet]), if_pos hdet, if_pos hldr, operandAddress_of_isLdrPc hldr, hvia,
      hsrc]
  have hexecute : cpu.execute effect = { cpu with
      pc := (Buffer.branchTo (word cpu.mem via) cpu.cpsr).1
      ip := via
      cpsr := (Buffer.branchTo (word cpu.mem via) cpu.cpsr).2 } := by
    simp only [Cpu.execute, hthumb, heffect, hldr, not_isAdd_of_isLdrPc hldr, hvia,
      Bool.or_self, Bool.false_eq_true, if_false, if_true]
  rw [Cpu.step, hwatch, hexecute, Option.map_map]
  rfl

theorem await_eq {abt abt' : Buffer} (hawait : abt.await via src = some abt') :
    abt'.viaToSrc = Function.update abt.viaToSrc via (some src) ∧
      abt'.abtbViaEntries = abt.abtbViaEntries ∧ abt'.table = abt.table := by
  rw [Buffer.await] at hawait
  split_ifs at hawait with hvia hnone hsome
  · rw [← Option.some.inj hawait]
    exact ⟨rfl, rfl, rfl⟩
  · rw [← Option.some.inj hawait, ← hsome, Function.update_eq_self]
    exact ⟨rfl, rfl, rfl⟩

/-- The matcher finds a trampoline that the core executes, when it has seen the
branch that goes there: the three instructions are careful, and after them the
core is where the via says and the buffer waits at the via. -/
theorem trampoline_detected (first second third : Effect) (h : Inv mask cpu.mem cpu.abt)
    (hthumb : cpu.thumb = false) (hdet : cpu.abt.tDet = 1)
    (htrampoline : trampoline cpu.mem cpu.pc = some via)
    (hsole : ∀ src, cpu.abt.viaToSrc via = some src → src = cpu.pc)
    (heffects : first.stopped = false ∧ second.stopped = false ∧ third.stopped = false) :
    ∃ final, Guarded.exec (Cpu.step mask) cpu [.instr first, .instr second, .instr third] =
        some final ∧
      Guarded.Meets (Cpu.step mask) (Careful mask) cpu
        [.instr first, .instr second, .instr third] ∧
      (final.pc, final.cpsr) = Buffer.branchTo (word cpu.mem via) cpu.cpsr ∧
      final.mem = cpu.mem ∧
      final.abt.viaToSrc = Function.update cpu.abt.viaToSrc via (some cpu.pc) ∧
      final.abt.abtbViaEntries = cpu.abt.abtbViaEntries ∧
      final.abt.table = cpu.abt.table := by
  obtain ⟨haddPc, haddIp, hldr, hvia⟩ := trampoline_eq_some.mp htrampoline
  have hpc : cpu.pc + 4 + 4 = cpu.pc + 8 := by bv_omega
  have hsrc : cpu.pc + 8 - 8 = cpu.pc := by bv_omega
  have hthird : cpu.pc + 8 + 8 - 16 = cpu.pc := by bv_omega
  let one : Cpu := { cpu with
    pc := cpu.pc + 4
    ip := cpu.pc + 8 + expandImm (word cpu.mem cpu.pc)
    abt := { cpu.abt with tDet := 2 } }
  let two : Cpu := { one with
    pc := cpu.pc + 8
    ip := one.ip + expandImm (word cpu.mem (cpu.pc + 4))
    abt := { cpu.abt with tDet := 3 } }
  have hone : cpu.step mask (.instr first) = some one :=
    step_addPc hthumb hdet heffects.1 haddPc
  have htwo : one.step mask (.instr second) = some two := by
    have hthumb' : one.thumb = false := hthumb
    have hdet' : one.abt.tDet = 2 := rfl
    have hadd : isAddIp (word one.mem one.pc) = true := haddIp
    rw [step_addIp hthumb' hdet' heffects.2.1 hadd]
    simp only [one, two, hpc]
  obtain ⟨abt', habt', -⟩ := (h.tDet 3).await htrampoline hsole
  have hawait : two.abt.await via (two.pc - 8) = some abt' := by
    rw [← habt']
    simp only [two, hsrc]
  let three : Cpu := { two with
    pc := (Buffer.branchTo (word cpu.mem via) cpu.cpsr).1
    ip := via
    cpsr := (Buffer.branchTo (word cpu.mem via) cpu.cpsr).2
    abt := { abt' with tDet := 0 } }
  have hthree : two.step mask (.instr third) = some three := by
    have hthumb' : two.thumb = false := hthumb
    have hdet' : two.abt.tDet = 3 := rfl
    rw [step_ldrPc hthumb' hdet' heffects.2.2 hldr hvia, hawait]
    rfl
  have hlast : Careful mask two (.instr third) := by
    intro ins pc hmonitored _ _
    have hthumb' : two.thumb = false := hthumb
    rw [monitored_arm hthumb', Option.some.injEq, Prod.mk.injEq] at hmonitored
    rw [← hmonitored.1, ← hmonitored.2, operandAddress_of_isLdrPc hldr]
    simp only [two, one] at hthird ⊢
    rw [hthird, hvia]
    exact ⟨htrampoline, hsole⟩
  have hmeets : Guarded.Meets (Cpu.step mask) (Careful mask) cpu
      [.instr first, .instr second, .instr third] := by
    refine Guarded.meets_cons hone (fun _ _ _ hdet' => ?_)
      (Guarded.meets_cons htwo (fun _ _ _ hdet' => ?_) (Guarded.meets_cons hthree hlast trivial))
    · rw [hdet] at hdet'
      cases hdet'
    · cases hdet'
  have hfinal := await_eq habt'
  refine ⟨three, ?_, hmeets, rfl, rfl, hfinal⟩
  rw [Guarded.exec_cons, hone, Option.bind_some, Guarded.exec_cons, htwo, Option.bind_some,
    Guarded.exec_cons, hthree, Option.bind_some]
  rfl

end Detection

section Runs

variable {mask : Word} {cpu : Cpu}

/-- A careful step fails no assertion and keeps the invariant. -/
theorem Inv.step (h : Inv mask cpu.mem cpu.abt) {event : Event}
    (hguard : Careful mask cpu event) :
    ∃ next, cpu.step mask event = some next ∧ Inv mask next.mem next.abt := by
  cases event with
  | instr effect =>
      have hmem : (cpu.execute effect).mem = cpu.mem := by
        simp only [Cpu.execute]
        split_ifs <;> rfl
      have hwatch : ∃ abt', cpu.watch effect = some abt' ∧ Inv mask cpu.mem abt' := by
        rw [Cpu.watch]
        cases hmonitored : cpu.monitored effect with
        | none => exact ⟨cpu.abt, rfl, h⟩
        | some watched => exact h.monitor (hguard watched.1 watched.2 hmonitored)
      obtain ⟨abt', habt', hinv⟩ := hwatch
      refine ⟨_, by rw [Cpu.step, habt']; rfl, ?_⟩
      rw [← hmem] at hinv
      exact hinv
  | exception effect => exact ⟨_, rfl, h⟩
  | store store done =>
      obtain ⟨htrampolines, hvias, hword⟩ := hguard
      obtain ⟨abt', habt', hinv⟩ := h.snoop htrampolines hvias hword
      exact ⟨_, by rw [Cpu.step, habt']; rfl, hinv⟩
  | foreign store => exact ⟨_, rfl, h.of_keeps hguard.1 hguard.2⟩

/-- Whatever a core executes from memory that has any contents: in a run whose
steps are careful no assertion of the buffer fails, and at its end a branch that
the buffer answers goes where the trampoline would. -/
theorem bypass_invisible (mask : Word) (mem : Memory) (pc ip cpsr : Word)
    (finalDest : Word → Word) (events : List Event)
    (hguard : Guarded.Meets (Cpu.step mask) (Careful mask)
      ⟨mem, pc, ip, cpsr, .made finalDest⟩ events) :
    ∃ final, Guarded.exec (Cpu.step mask) ⟨mem, pc, ip, cpsr, .made finalDest⟩ events =
        some final ∧
      Invisible mask final := by
  have hstep : ∀ (cpu : Cpu) event, Inv mask cpu.mem cpu.abt → Careful mask cpu event →
      ∃ next, cpu.step mask event = some next ∧ Inv mask next.mem next.abt :=
    fun _ _ h hguard => h.step hguard
  obtain ⟨final, hfinal, hinv⟩ :=
    Guarded.exec_total hstep (Inv.made mem finalDest) hguard
  exact ⟨final, hfinal, hinv.invisible⟩

/-- A program: a Thumb `blx` at `0x1000`, trampolines at `0x2000` and `0x2010` with
one via at `0xad28`, which holds the address of the linker. -/
def program : Memory := fun address =>
  let word : Word :=
    if address &&& ~~~3 = 0x1000 then 0xE800F000
    else if address &&& ~~~3 = 0x2000 ∨ address &&& ~~~3 = 0x2010 then 0xE28FC600
    else if address &&& ~~~3 = 0x2004 ∨ address &&& ~~~3 = 0x2014 then 0xE28CCA08
    else if address &&& ~~~3 = 0x2008 then 0xE5BCFD20
    else if address &&& ~~~3 = 0x2018 then 0xE5BCFD10
    else if address &&& ~~~3 = 0xAD28 then 0x3000
    else 0
  word.extractLsb' (8 * (address &&& 3).toNat) 8

/-- A core about to execute the `blx`. -/
def caller : Cpu := ⟨program, 0x1000, 0, 0x20, .made fun _ => 0⟩

/-- The `blx` to a trampoline. -/
def blx (src : Word) : Event := .instr { pc := src, ip := 0, cpsr := 0, stopped := false }

/-- The core at the first trampoline. -/
def called : Cpu := ⟨program, 0x2000, 0, 0, { Buffer.made (fun _ => 0) with tDet := 1 }⟩

/-- What an instruction of a trampoline does has nothing from outside. -/
def plain : Effect := { pc := 0, ip := 0, cpsr := 0, stopped := false }

/-- The call through the first trampoline, which goes to the linker. -/
def throughTrampoline : List Event :=
  [blx 0x2000, .instr plain, .instr plain, .instr plain]

/-- The linker patches the via with the address `0x4000`. -/
def patch : Event := .store { address := 0xAD28, sizeCode := 2, value := 0x4000 } true

/-- After the patch a branch to the trampoline goes to `0x4000`. -/
theorem bypass_invisible_patch :
    ∃ final, Guarded.exec (Cpu.step 0xFF) caller (throughTrampoline ++ [patch]) =
        some final ∧
      Invisible 0xFF final ∧ final.abt.query 0xFF 0x2000 0 = some (0x4000, 0) := by
  have hblx : caller.step 0xFF (blx 0x2000) = some called := by
    have hmonitored : caller.monitored { pc := 0x2000, ip := 0, cpsr := 0, stopped := false } =
        some (0xF000E800, 0x1006) := by decide
    rw [blx, Cpu.step, Cpu.watch, hmonitored]
    rfl
  have hcareful : Careful 0xFF caller (blx 0x2000) := fun _ _ _ hdet => by cases hdet
  have htrampoline : trampoline program 0x2000 = some 0xAD28 := by decide
  have hinv : Inv 0xFF called.mem called.abt := (Inv.made program fun _ => 0).tDet 1
  obtain ⟨waiting, hwaiting, hmeets, -, hmem, hvia, hentries, htable⟩ :=
    trampoline_detected plain plain plain hinv (by decide) rfl htrampoline
      (fun _ hsrc => by cases hsrc) ⟨rfl, rfl, rfl⟩
  have hpatch : Careful 0xFF waiting patch := by
    refine ⟨fun src hsrc => ?_, fun via hinstalled => ?_, fun _ => ?_⟩
    · have hsrc' : src = 0x2000 := by
        rw [Buffer.Knows, hvia, htable] at hsrc
        rcases hsrc with ⟨via, hsrc⟩ | ⟨hne, i, -, htag⟩
        · rw [Function.update_apply] at hsrc
          split_ifs at hsrc
          · exact (Option.some.inj hsrc).symm
          · cases hsrc
        · exact absurd htag.symm hne
      rw [hsrc', Cpu.written, hmem]
      decide
    · rw [hentries] at hinstalled
      cases hinstalled
    · rw [Cpu.written, hmem]
      decide
  have hguard : Guarded.Meets (Cpu.step 0xFF) (Careful 0xFF) caller
      (throughTrampoline ++ [patch]) := by
    have hsecond : Guarded.Meets (Cpu.step 0xFF) (Careful 0xFF) waiting [patch] :=
      ⟨hpatch, fun _ _ => trivial⟩
    exact Guarded.meets_cons hblx hcareful (Guarded.meets_append_of hmeets hwaiting hsecond)
  obtain ⟨final, hfinal, hinvisible⟩ := bypass_invisible 0xFF program 0x1000 0 0x20
    (fun _ => 0) _ hguard
  have hquery : (Guarded.exec (Cpu.step 0xFF) caller (throughTrampoline ++ [patch])).map
      (fun final => final.abt.query 0xFF 0x2000 0) = some (some (0x4000, 0)) := by
    decide
  rw [caller, hfinal, Option.map_some, Option.some.injEq] at hquery
  exact ⟨final, hfinal, hinvisible, hquery⟩

/-- A byte stored into the via after the patch is not seen, and of two trampolines
with one via the second fails an assertion when both are called before the
patch. -/
theorem not_bypass_invisible :
    ¬(∀ events final, Guarded.exec (Cpu.step 0xFF) caller events = some final →
        Invisible 0xFF final) ∧
      ¬∀ events, (Guarded.exec (Cpu.step 0xFF) caller events).isSome := by
  refine ⟨fun hclaim => ?_, fun hclaim => ?_⟩
  · let poke : Event := .store { address := 0xAD29, sizeCode := 0, value := 0x50 } true
    have hview : (Guarded.exec (Cpu.step 0xFF) caller
        (throughTrampoline ++ [patch, poke])).map (fun final =>
          (final.abt.query 0xFF 0x2000 0, trampoline final.mem 0x2000,
            word final.mem 0xAD28)) =
        some (some (0x4000, 0), some 0xAD28, 0x5000) := by
      decide
    obtain ⟨final, hfinal, hvalues⟩ := Option.map_eq_some_iff.mp hview
    rw [Prod.mk.injEq, Prod.mk.injEq] at hvalues
    obtain ⟨hquery, htrampoline, hword⟩ := hvalues
    obtain ⟨via, hvia, hanswer⟩ := hclaim _ final hfinal 0x2000 0 _ (by decide) hquery
    rw [htrampoline, Option.some.injEq] at hvia
    rw [← hvia, hword] at hanswer
    exact absurd hanswer (by decide)
  · let again : Event := .instr { pc := 0x1000, ip := 0, cpsr := 0x20, stopped := false }
    have hfails : (Guarded.exec (Cpu.step 0xFF) caller (throughTrampoline ++
        [again, blx 0x2010, .instr plain, .instr plain, .instr plain])).isSome = false := by
      decide
    rw [hclaim] at hfails
    cases hfails

end Runs

end Prazor.Arm.Abtb
