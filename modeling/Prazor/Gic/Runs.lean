import Prazor.Gic.Acknowledge

/-!
# Runs of the interrupt controller

Each event edits words of a few kinds, and leaves the others as they are.  The
numbers that `distribute` tells the CPUs are those of interrupts, and stay so if
no CPU writes to its acknowledge registers.
-/

namespace Prazor.Gic

variable {nCpus : ℕ} {gic next : GicArmTlm} {event : Event} {data : Word} {place : Place}

/-! ## What an event can edit -/

/-- A word of the matrix of software interrupts. -/
def InMatrix (place : Place) : Prop := ∃ cpuID n, place = .cpustate cpuID (.sgiMatrix n)

/-- A word of requests of inputs. -/
def InUnmasked (place : Place) : Prop :=
  (∃ cpuID, place = .cpustate cpuID .unmasked) ∨ ∃ n, place = .diststate (.unmasked n)

variable (nCpus) in
/-- A word that a distributor register leads to. -/
def Addressed (cpuID : ℕ) (place : Place) : Prop :=
  ∃ reg, distAddresser nCpus reg cpuID = some place

variable (nCpus) in
/-- The words that an event can edit. -/
def Touches : Event → Place → Prop
  | .distribute, place =>
      ∃ cpuID grp, place = .cpustate cpuID (.ia grp) ∨ place = .cpustate cpuID (.rp grp)
  | .spi _ _, place | .ppi _, place => InUnmasked place
  | .readDist _ _, _ => False
  | .writeDist reg cpuID _, place =>
      distAddresser nCpus reg cpuID = some place ∨
        InMatrix place ∧ (SgiRegister reg ∨ inRange 0x280 4 reg)
  | .readCpu reg cpuID, place =>
      (reg = 0x0c ∨ reg = 0x20) ∧
        (InMatrix place ∨ InUnmasked place ∨ Addressed nCpus cpuID place)
  | .writeCpu reg cpuID _, place =>
      cpuAddresser reg cpuID = some place ∨
        (reg = 0x10 ∨ reg = 0x24) ∧ Addressed nCpus cpuID place

/-- The words outside a set are as they were. -/
def SameOutside (touched : Place → Prop) (gic next : GicArmTlm) : Prop :=
  ∀ place, ¬touched place → next.word place = gic.word place

section SameOutside

variable {touched : Place → Prop} {last : GicArmTlm}

theorem SameOutside.refl (gic : GicArmTlm) : SameOutside touched gic gic := fun _ _ => rfl

theorem SameOutside.trans (hfirst : SameOutside touched gic next)
    (hsecond : SameOutside touched next last) : SameOutside touched gic last := by
  intro place hplace
  rw [hsecond place hplace, hfirst place hplace]

theorem SameOutside.modify (hsame : SameOutside touched gic next) (hplace : touched place)
    (edit : Word → Word) : SameOutside touched gic (next.modify place edit) := by
  intro other hother
  have hne : other ≠ place := by
    rintro rfl
    exact hother hplace
  rw [modify_word, if_neg hne]
  exact hsame other hother

theorem sameOutside_writeThrough {reg cpuID : ℕ} {edit : Word → Word}
    (htouched : ∀ place, distAddresser nCpus reg cpuID = some place → touched place)
    (hwrite : writeThrough nCpus gic reg cpuID edit = some next) :
    SameOutside touched gic next := by
  obtain ⟨place, hplace, rfl⟩ := Option.map_eq_some_iff.mp hwrite
  exact (SameOutside.refl gic).modify (htouched place hplace) edit

theorem sameOutside_clearSgi {no cpuID : ℕ} {srcCpu : ℤ}
    (htouched : ∀ place, InMatrix place → touched place)
    (hclear : clearSgi nCpus gic no cpuID srcCpu = some next) :
    SameOutside touched gic next := by
  have hturn : ∀ mid last, SameOutside touched gic mid →
      clearSgiBit no cpuID srcCpu mid = some last → SameOutside touched gic last := by
    intro mid last hmid hstep
    unfold clearSgiBit at hstep
    dsimp only at hstep
    split_ifs at hstep
    cases hstep
    exact hmid.modify (htouched _ ⟨_, _, rfl⟩) _
  unfold clearSgi at hclear
  split_ifs at hclear
  · exact hturn gic next (.refl gic) hclear
  · exact Guarded.foldlM_keeps (fun mid _ last _ => hturn mid last) (.refl gic) hclear

theorem sameOutside_of_matrixOnly (htouched : ∀ place, InMatrix place → touched place)
    (hmatrix : MatrixOnly gic next) : SameOutside touched gic next := by
  intro place hplace
  refine hmatrix.word place fun cpuID n hsame => hplace (htouched place ⟨cpuID, n, hsame⟩)

end SameOutside

/-! ## The frame of an event -/

theorem sameOutside_foldl {Index : Type*} {touched : Place → Prop}
    {turn : GicArmTlm → Index → GicArmTlm}
    (hturn : ∀ mid index, SameOutside touched mid (turn mid index)) (indices : List Index)
    (gic : GicArmTlm) : SameOutside touched gic (indices.foldl turn gic) := by
  induction indices generalizing gic with
  | nil => exact .refl gic
  | cons index rest ih => exact (hturn gic index).trans (ih (turn gic index))

theorem sameOutside_distribute (gic : GicArmTlm) :
    SameOutside (Touches nCpus .distribute) gic (distribute nCpus gic) := by
  refine sameOutside_foldl (fun mid n => ?_) _ gic
  have htell : ∀ (told : GicArmTlm) g,
      SameOutside (Touches nCpus .distribute) told (tellGroup (elect nCpus gic) n told g) := by
    intro told g
    unfold tellGroup
    split
    · exact ((SameOutside.refl told).modify ⟨n, g, .inr rfl⟩ _).modify ⟨n, g, .inl rfl⟩ _
    · exact (SameOutside.refl told).modify ⟨n, g, .inl rfl⟩ _
  exact sameOutside_foldl htell [0, 1] mid

theorem sameOutside_writePendingClear {touched : Place → Prop} {reg cpuID : ℕ}
    (hword : ∀ place, distAddresser nCpus reg cpuID = some place → touched place)
    (hmatrix : reg / 4 % 32 = 0 → ∀ place, InMatrix place → touched place)
    (hwrite : writePendingClear nCpus gic reg data cpuID = some next) :
    SameOutside touched gic next := by
  obtain ⟨mid, hcleared, hwrite⟩ := Option.bind_eq_some_iff.mp hwrite
  refine SameOutside.trans ?_ (sameOutside_writeThrough hword hwrite)
  split_ifs at hcleared with hzero
  · have hturn : ∀ (mid : GicArmTlm) i last, i ∈ List.range 16 →
        SameOutside touched gic mid →
        (if data.getLsbD i then clearSgi nCpus mid i cpuID (-1) else some mid) = some last →
        SameOutside touched gic last := by
      intro mid i last _ hmid hstep
      split_ifs at hstep
      · exact hmid.trans (sameOutside_clearSgi (hmatrix hzero) hstep)
      · cases hstep
        exact hmid
    exact Guarded.foldlM_keeps hturn (.refl gic) hcleared
  · cases hcleared
    exact .refl gic

theorem sameOutside_writeDist {reg cpuID : ℕ}
    (hwrite : writeDist nCpus gic reg data cpuID = some next) :
    SameOutside (Touches nCpus (.writeDist reg cpuID data)) gic next := by
  cases hregister : registerAt reg with
  | some register =>
      by_cases hclear : inRange 0x280 128 reg
      · rw [writeDist_pendingClear hclear] at hwrite
        refine sameOutside_writePendingClear (fun place hplace => .inl hplace)
          (fun hzero place hplace => .inr ⟨hplace, .inr ?_⟩) hwrite
        rw [inRange_iff] at hclear ⊢
        omega
      · rw [writeDist_of_register hregister hclear] at hwrite
        exact sameOutside_writeThrough (fun place hplace => .inl hplace) hwrite
  | none =>
      by_cases hcontrol : reg = 0x00
      · rw [hcontrol, writeDist, if_pos (by norm_num), if_pos rfl] at hwrite
        cases hwrite
        exact fun _ _ => rfl
      · obtain ⟨hmatrix, hnothing⟩ := writeDist_matrixOnly hregister hcontrol hwrite
        by_cases hsgi : SgiRegister reg
        · exact sameOutside_of_matrixOnly (fun place hplace => .inr ⟨hplace, .inl hsgi⟩) hmatrix
        · rw [hnothing hsgi]
          exact .refl gic

theorem sameOutside_takeRequest {touched : Place → Prop} {pendID cpuID : ℕ}
    {taken : GicArmTlm × ℕ} (hmatrix : ∀ place, InMatrix place → touched place)
    (hunmasked : ∀ place, InUnmasked place → touched place)
    (htake : takeRequest nCpus gic pendID cpuID = some taken) :
    SameOutside touched gic taken.1 := by
  unfold takeRequest at htake
  dsimp only at htake
  split_ifs at htake
  · obtain ⟨cleared, hclear, rfl⟩ := Option.map_eq_some_iff.mp htake
    exact sameOutside_clearSgi hmatrix hclear
  · cases htake
    have hplace := hunmasked (.cpustate cpuID .unmasked) (.inl ⟨_, rfl⟩)
    dsimp only
    exact (SameOutside.refl gic).modify hplace _
  · cases htake
    have hplace := hunmasked (.diststate (.unmasked (Fin.ofNat 32 (pendID / 32))))
      (.inr ⟨_, rfl⟩)
    dsimp only
    exact (SameOutside.refl gic).modify hplace _
  · cases htake
    exact .refl gic

theorem sameOutside_notify {grp : Fin 2} {cpuID : ℕ}
    (hnotify : notifyIntAcknowledge nCpus gic grp cpuID = some (next, data)) :
    SameOutside (fun place => InMatrix place ∨ InUnmasked place ∨ Addressed nCpus cpuID place)
      gic next := by
  unfold notifyIntAcknowledge at hnotify
  dsimp only at hnotify
  split_ifs at hnotify
  obtain ⟨taken, htake, h⟩ := Option.bind_eq_some_iff.mp hnotify
  obtain ⟨mid, hmid, h⟩ := Option.bind_eq_some_iff.mp h
  obtain ⟨last, hlast, h⟩ := Option.map_eq_some_iff.mp h
  rw [Prod.mk.injEq] at h
  obtain ⟨rfl, -⟩ := h
  have haddressed : ∀ reg place, distAddresser nCpus reg cpuID = some place →
      InMatrix place ∨ InUnmasked place ∨ Addressed nCpus cpuID place :=
    fun reg place hplace => .inr (.inr ⟨reg, hplace⟩)
  have hfirst : SameOutside (fun place =>
      InMatrix place ∨ InUnmasked place ∨ Addressed nCpus cpuID place) gic taken.1 :=
    sameOutside_takeRequest (fun _ h => .inl h) (fun _ h => .inr (.inl h)) htake
  exact (hfirst.trans (sameOutside_writeThrough (haddressed _) hmid)).trans
    (sameOutside_writeThrough (haddressed _) hlast)

/-- What an event cannot edit is as it was. -/
theorem sameOutside_step (hstep : step nCpus gic event = some (next, data)) :
    SameOutside (Touches nCpus event) gic next := by
  cases event with
  | distribute =>
      cases hstep
      exact sameOutside_distribute gic
  | spi word input =>
      simp only [step] at hstep
      split_ifs at hstep
      cases hstep
      exact (SameOutside.refl gic).modify (.inr ⟨word, rfl⟩) _
  | ppi inputs =>
      cases hstep
      exact sameOutside_foldl
        (fun mid n => (SameOutside.refl mid).modify (.inl ⟨n, rfl⟩) _) _ gic
  | readDist reg cpuID =>
      simp only [step] at hstep
      split_ifs at hstep
      cases hstep
      exact .refl gic
  | writeDist reg cpuID input =>
      simp only [step] at hstep
      split_ifs at hstep
      obtain ⟨written, hwrite, h⟩ := Option.map_eq_some_iff.mp hstep
      cases h
      exact sameOutside_writeDist hwrite
  | readCpu reg cpuID =>
      simp only [step, readCpu] at hstep
      split_ifs at hstep with _ hiar haiar
      · intro place hplace
        exact sameOutside_notify hstep place fun h => hplace ⟨Or.inl hiar, h⟩
      · intro place hplace
        exact sameOutside_notify hstep place fun h => hplace ⟨Or.inr haiar, h⟩
      · cases hstep
        exact .refl gic
  | writeCpu reg cpuID input =>
      simp only [step, writeCpu] at hstep
      split_ifs at hstep with _ heoi
      · obtain ⟨written, hwrite, h⟩ := Option.map_eq_some_iff.mp hstep
        cases h
        exact sameOutside_writeThrough (fun place hplace => .inr ⟨heoi, _, hplace⟩) hwrite
      · rw [Option.map_some, Option.some.injEq, Prod.mk.injEq] at hstep
        rw [← hstep.1]
        cases hplace : cpuAddresser reg cpuID with
        | none => exact .refl gic
        | some place =>
            have htouched : Touches nCpus (.writeCpu reg cpuID input) place := .inl hplace
            rw [Option.map_some, Option.getD_some]
            exact (SameOutside.refl gic).modify htouched _

/-! ## The acknowledge registers -/

/-- The number that `distribute` tells a CPU. -/
def told (leaders : Leaders) (g : Fin 2) (n : ℕ) : Word :=
  match leaders g n with
  | some (_, no) => BitVec.ofNat 32 no
  | none => 0x3FF

theorem tellGroup_ia (leaders : Leaders) (n cpuID : ℕ) (gic : GicArmTlm) (g grp : Fin 2) :
    (tellGroup leaders n gic g).word (.cpustate cpuID (.ia grp)) =
      if cpuID = n ∧ grp = g then told leaders g n
      else gic.word (.cpustate cpuID (.ia grp)) := by
  unfold tellGroup told
  cases leaders g n with
  | none => simp only [modify_word, Place.cpustate.injEq, CpuFile.ia.injEq]
  | some leader =>
      simp only [modify_word, Place.cpustate.injEq, CpuFile.ia.injEq, reduceCtorEq, and_false,
        if_false]

theorem driveOutputs_ia (leaders : Leaders) (gic : GicArmTlm) (n cpuID : ℕ) (grp : Fin 2) :
    (driveOutputs leaders gic n).word (.cpustate cpuID (.ia grp)) =
      if cpuID = n then told leaders grp n else gic.word (.cpustate cpuID (.ia grp)) := by
  change (tellGroup leaders n (tellGroup leaders n gic 0) 1).word _ = _
  rw [tellGroup_ia, tellGroup_ia]
  obtain rfl | rfl : grp = 0 ∨ grp = 1 := by omega
  · simp
  · simp

/-- What `distribute` tells a CPU is for it alone. -/
theorem distribute_ia {cpuID : ℕ} (hcpu : cpuID < nCpus) (grp : Fin 2) :
    (distribute nCpus gic).word (.cpustate cpuID (.ia grp)) =
      told (elect nCpus gic) grp cpuID := by
  have hturns : ∀ (ns : List ℕ) (mid : GicArmTlm),
      (cpuID ∈ ns ∨ mid.word (.cpustate cpuID (.ia grp)) = told (elect nCpus gic) grp cpuID) →
      (ns.foldl (driveOutputs (elect nCpus gic)) mid).word (.cpustate cpuID (.ia grp)) =
        told (elect nCpus gic) grp cpuID := by
    intro ns
    induction ns with
    | nil => exact fun mid h => h.resolve_left List.not_mem_nil
    | cons n rest ih =>
        intro mid h
        refine ih _ ?_
        rw [driveOutputs_ia]
        by_cases hn : cpuID = n
        · subst hn
          exact .inr (if_pos rfl)
        · rw [if_neg hn]
          exact h.imp_left fun hmem => (List.mem_cons.mp hmem).resolve_left hn
  exact hturns _ gic (.inl (List.mem_range.mpr hcpu))

/-- A turn of the inner loop leaves the leaders or makes the interrupt one. -/
theorem consider_cases (leaders : Leaders) (cpuID no : ℕ) :
    consider nCpus gic cpuID leaders no = leaders ∨
      ∃ grp pri, consider nCpus gic cpuID leaders no =
        Function.update leaders grp
          (Function.update (leaders grp) cpuID (some (pri, no))) := by
  unfold consider
  dsimp only
  split_ifs <;> first | exact .inl rfl | exact .inr ⟨_, _, rfl⟩

/-- The leaders are interrupts. -/
def Numbered (leaders : Leaders) : Prop :=
  ∀ g n pri no, leaders g n = some (pri, no) → no < 1024

theorem Numbered.consider {leaders : Leaders} (hleaders : Numbered leaders) {cpuID no : ℕ}
    (hno : no < 1024) : Numbered (consider nCpus gic cpuID leaders no) := by
  rcases consider_cases leaders cpuID no with hsame | ⟨grp, pri, hnew⟩
  · rw [hsame]
    exact hleaders
  · rw [hnew]
    intro g n pri' no' h
    rw [Function.update_apply] at h
    split_ifs at h
    · rw [Function.update_apply] at h
      split_ifs at h
      · cases h
        exact hno
      · exact hleaders _ _ _ _ h
    · exact hleaders _ _ _ _ h

theorem numbered_elect (nCpus : ℕ) (gic : GicArmTlm) : Numbered (elect nCpus gic) := by
  have hstart : Numbered fun _ _ => none := fun _ _ _ _ h => nomatch h
  refine List.foldlRecOn _ _ hstart fun leaders hleaders sgi _ => ?_
  refine List.foldlRecOn _ _ hleaders fun leaders hleaders cpuID _ => ?_
  refine List.foldlRecOn _ _ hleaders fun leaders hleaders bit hbit => ?_
  split
  · exact hleaders.consider (by have := List.mem_range.mp hbit; omega)
  · exact hleaders

theorem told_lt (nCpus : ℕ) (gic : GicArmTlm) (g : Fin 2) (n : ℕ) :
    (told (elect nCpus gic) g n).toNat < 1024 := by
  unfold told
  split
  case h_1 pri no hleader =>
    have hno := numbered_elect nCpus gic g n pri no hleader
    rw [BitVec.toNat_ofNat, Nat.mod_eq_of_lt (by omega)]
    exact hno
  case h_2 => decide

/-- The acknowledge registers hold numbers of interrupts. -/
def Telling (nCpus : ℕ) (gic : GicArmTlm) : Prop :=
  ∀ cpuID < nCpus, ∀ grp, (gic.word (.cpustate cpuID (.ia grp))).toNat < 1024

/-- The event does not write to an acknowledge register, which is to be read only. -/
def Event.KeepsAcknowledge : Event → Prop
  | .writeCpu reg _ _ => reg ≠ 0x0c ∧ reg ≠ 0x20
  | _ => True

theorem not_addressed_ia (cpuID cpuID' : ℕ) (grp : Fin 2) :
    ¬Addressed nCpus cpuID (.cpustate cpuID' (.ia grp)) := by
  rintro ⟨reg, hplace⟩
  rw [distAddresser_eq] at hplace
  obtain ⟨register, -, hplace⟩ := Option.bind_eq_some_iff.mp hplace
  have hbanked : ∀ field, banked nCpus cpuID field = some (.cpustate cpuID' (.ia grp)) →
      field = .ia grp := by
    intro field h
    unfold banked at h
    split_ifs at h
    cases h
    rfl
  have htargets : ∀ n, targetsElement n ≠ .ia grp := by
    intro n
    fin_cases n <;> exact fun h => nomatch h
  unfold element at hplace
  dsimp only at hplace
  split at hplace <;> split_ifs at hplace <;>
    first
    | cases hplace
    | cases hbanked _ hplace
    | exact htargets _ (hbanked _ hplace)

theorem Telling.step (htelling : Telling nCpus gic) (hkeeps : event.KeepsAcknowledge)
    (hstep : step nCpus gic event = some (next, data)) : Telling nCpus next := by
  intro cpuID hcpu grp
  by_cases htouched : Touches nCpus event (.cpustate cpuID (.ia grp))
  swap
  · rw [sameOutside_step hstep _ htouched]
    exact htelling cpuID hcpu grp
  cases event with
  | distribute =>
      cases hstep
      rw [distribute_ia hcpu]
      exact told_lt nCpus gic grp cpuID
  | spi word input =>
      rcases htouched with ⟨_, h⟩ | ⟨_, h⟩ <;> cases h
  | ppi inputs =>
      rcases htouched with ⟨_, h⟩ | ⟨_, h⟩ <;> cases h
  | readDist reg other => exact htouched.elim
  | writeDist reg other input =>
      rcases htouched with hplace | ⟨⟨_, _, hplace⟩, -⟩
      · exact absurd ⟨reg, hplace⟩ (not_addressed_ia other cpuID grp)
      · cases hplace
  | readCpu reg other =>
      rcases htouched.2 with ⟨_, _, hplace⟩ | hplace | hplace
      · cases hplace
      · rcases hplace with ⟨_, h⟩ | ⟨_, h⟩ <;> cases h
      · exact absurd hplace (not_addressed_ia other cpuID grp)
  | writeCpu reg other input =>
      rcases htouched with hplace | ⟨-, hplace⟩
      · obtain ⟨hiar, haiar⟩ := hkeeps
        unfold cpuAddresser at hplace
        split at hplace <;> cases hplace
        · exact absurd rfl hiar
        · exact absurd rfl haiar
      · exact absurd hplace (not_addressed_ia other cpuID grp)

theorem telling_started (left : GicArmTlm) : Telling nCpus (started nCpus left) := by
  intro cpuID hcpu grp
  rw [started, distribute_ia hcpu]
  exact told_lt nCpus _ grp cpuID

/-- In every state of a run without writes to the acknowledge registers these hold
numbers of interrupts. -/
theorem telling_of_run {left final : GicArmTlm} {events : List Event}
    (hkeeps : ∀ event ∈ events, event.KeepsAcknowledge)
    (hrun : Guarded.exec (Guarded.advance (step nCpus)) (started nCpus left) events =
      some final) : Telling nCpus final := by
  have hstep : ∀ gic event next, Telling nCpus gic → Event.KeepsAcknowledge event →
      Guarded.advance (step nCpus) gic event = some next → Telling nCpus next := by
    intro gic event next htelling hevent hnext
    obtain ⟨⟨_, data⟩, hstep, rfl⟩ := Option.map_eq_some_iff.mp hnext
    exact htelling.step hevent hstep
  exact Guarded.exec_invariant hstep (telling_started left)
    (Guarded.meets_of_forall _ hkeeps) hrun

/-- In every state that a run reaches, an acknowledgement does what it should in
exactly the states it can be acknowledged in, and the end of an interrupt always
does. -/
theorem acknowledge_frame_iff (nCpus : ℕ) (left final : GicArmTlm) (events : List Event)
    (hkeeps : ∀ event ∈ events, event.KeepsAcknowledge)
    (hrun : Guarded.exec (Guarded.advance (step nCpus)) (started nCpus left) events =
      some final) (cpuID : ℕ) (hcpu : cpuID < nCpus) :
    (∀ grp, AcknowledgeFrame nCpus final grp cpuID ↔ Acknowledgeable nCpus final grp cpuID) ∧
      ∀ data, EndFrame nCpus final cpuID data := by
  have htelling := telling_of_run hkeeps hrun
  exact ⟨fun grp => acknowledgeFrame_iff hcpu (htelling cpuID hcpu grp),
    fun data => endFrame hcpu final data⟩

/-- Both CPUs have their software interrupts enabled, and the second interrupts
the first. -/
def interrupting : List Event :=
  [.writeDist 0x000 0 0x3, .writeDist 0x100 0 0xFFFF, .writeCpu 0x00 0 0x1,
    .writeDist 0xF00 1 0x00010003, .distribute]

theorem acknowledge_frame_interrupting :
    ∃ final, Guarded.exec (Guarded.advance (step 2)) (started 2 blank) interrupting =
        some final ∧ AcknowledgeFrame 2 final 0 0 := by
  have hvalues : (Guarded.exec (Guarded.advance (step 2)) (started 2 blank) interrupting).map
      (fun final => ((final.word (.cpustate 0 (.ia 0))).toNat,
        final.word (bitPlace .pendings 0 3), pendingSgi final 0 3 1)) = some (3, 0, true) := by
    decide +kernel
  obtain ⟨final, hrun, hfinal⟩ := Option.map_eq_some_iff.mp hvalues
  rw [Prod.mk.injEq, Prod.mk.injEq] at hfinal
  obtain ⟨hia, hzero, hsource⟩ := hfinal
  refine ⟨final, hrun, ?_⟩
  refine ((acknowledge_frame_iff 2 blank final interrupting ?_ hrun 0 (by norm_num)).1 0).mpr ?_
  · intro event hevent
    simp only [interrupting, List.mem_cons, List.not_mem_nil, or_false] at hevent
    rcases hevent with rfl | rfl | rfl | rfl | rfl <;> simp [Event.KeepsAcknowledge]
  · rw [Acknowledgeable, hia]
    exact ⟨fun _ => ⟨hzero, fun _ => ⟨1, by norm_num, by norm_num, hsource⟩, by norm_num⟩,
      by norm_num⟩

/-- A CPU of a new controller is told that nothing is pending, and an interrupt that
there is not becomes active. -/
theorem not_acknowledge_frame_spurious :
    ¬∀ (nCpus : ℕ) (left final : GicArmTlm) (events : List Event),
      Guarded.exec (Guarded.advance (step nCpus)) (started nCpus left) events = some final →
      ∀ cpuID, cpuID < nCpus → (∀ grp, AcknowledgeFrame nCpus final grp cpuID) ∧
        ∀ data, EndFrame nCpus final cpuID data := by
  intro hclaim
  have hframe := (hclaim 1 blank _ [] rfl 0 (by norm_num)).1 0
  have hvalues : (((started 1 blank).word (.cpustate 0 (.ia 0))).toNat,
      activeState (started 1 blank) 0 1023) = (1023, false) := by
    decide +kernel
  rw [Prod.mk.injEq] at hvalues
  obtain ⟨hia, hactive⟩ := hvalues
  have hstate := ((acknowledgeFrame_iff (by norm_num) (by omega)).mp hframe).2 hia
  rw [hactive] at hstate
  exact Bool.false_ne_true hstate.1

end Prazor.Gic
