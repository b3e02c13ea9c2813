import Prazor.Gic.Runs

/-!
# Delivery of software interrupts

A write of `GICD_SGIR` requests an interrupt at some of the CPUs, in the name of
the writer, and an acknowledgement takes one request back.  A history pairs each
event with the data it gave; what is pending after it should be what was last
sent and not taken since.
-/

namespace Prazor.Gic

open Prazor.WordBits

variable {nCpus : ℕ} {gic next : GicArmTlm} {entry : Event × Word} {grp : Fin 2}

/-! ## Requests -/

/-- A software interrupt of one CPU for another. -/
structure Sgi (nCpus : ℕ) where
  source : Fin nCpus
  target : Fin nCpus
  no : Fin 16
  deriving DecidableEq

def Sgi.pending (gic : GicArmTlm) (sgi : Sgi nCpus) : Bool :=
  pendingSgi gic sgi.target sgi.no sgi.source

/-- The filter of a write of `GICD_SGIR`. -/
def sgirFilter (data : Word) : ℕ := ((data >>> 24) &&& 0x3).toNat

/-- The CPUs that a write of `GICD_SGIR` is for: those of the target list, all but the
writer, or the writer alone. -/
def SentTo (data : Word) (source target : ℕ) : Prop :=
  match sgirFilter data with
  | 0 => data.getLsbD (16 + target)
  | 1 => target ≠ source
  | 2 => target = source
  | _ => False

instance (data : Word) (source target : ℕ) : Decidable (SentTo data source target) := by
  unfold SentTo
  split <;> infer_instance

/-- The number of the interrupt that an acknowledgement gives, and its source. -/
def answerNumber (data : Word) : ℕ := data.toNat % 1024

def answerSource (data : Word) : ℕ := data.toNat / 1024

/-- What an event does to a request: it is made, or taken back. -/
def Sgi.change (sgi : Sgi nCpus) : Event × Word → Option Bool
  | (.writeDist reg cpuID data, _) =>
      if reg = 0xF00 ∧ cpuID = sgi.source ∧ sgirNumber data = sgi.no ∧
        SentTo data cpuID sgi.target then some true else none
  | (.readCpu reg cpuID, data) =>
      if (reg = 0x0c ∨ reg = 0x20) ∧ cpuID = sgi.target ∧ answerNumber data = sgi.no ∧
        answerSource data = sgi.source then some false else none
  | _ => none

/-- The event acknowledges a software interrupt. -/
def Acknowledges (entry : Event × Word) (cpuID no : ℕ) : Prop :=
  (entry.1 = .readCpu 0x0c cpuID ∨ entry.1 = .readCpu 0x20 cpuID) ∧
    answerNumber entry.2 = no ∧ no < 16

/-! ## Histories -/

variable (nCpus) in
/-- A step that gives the data of the history. -/
def answered (gic : GicArmTlm) (entry : Event × Word) : Option GicArmTlm :=
  (step nCpus gic entry.1).bind fun served =>
    if served.2 = entry.2 then some served.1 else none

/-- The event is no write to the matrix behind the back of `GICD_SGIR`, nor to an
acknowledge register. -/
def Event.Ordinary : Event → Prop
  | .writeDist reg _ _ =>
      reg = 0xF00 ∨ ¬SgiRegister reg ∧ ¬inRange 0x280 4 reg ∧ ¬inRange 0x818 8 reg
  | event => event.KeepsAcknowledge

/-- What is pending after a history is what was last sent and not taken since, and each
acknowledgement has taken a request that was pending. -/
def SgisDelivered (nCpus : ℕ) (history : List (Event × Word)) (final : GicArmTlm) : Prop :=
  (∀ sgi : Sgi nCpus, sgi.pending final = (Guarded.latest sgi.change history).getD false) ∧
    ∀ before entry after, history = before ++ entry :: after →
      ∀ target no, Acknowledges entry target no →
        ∃ sgi : Sgi nCpus, (sgi.target : ℕ) = target ∧ (sgi.no : ℕ) = no ∧
          sgi.source = answerSource entry.2 ∧
          Guarded.latest sgi.change before = some true

variable (nCpus) in
/-- A write for all but the writer finds the writer's own request made already, and an
acknowledge register that shows a software interrupt has a source for it. -/
def Delivers (gic : GicArmTlm) : Event × Word → Prop
  | (.writeDist reg cpuID data, _) =>
      reg = 0xF00 → sgirFilter data = 1 → pendingSgi gic cpuID (sgirNumber data) cpuID
  | (.readCpu reg cpuID, _) =>
      ∀ grp : Fin 2, reg = (if grp = 0 then 0x0c else 0x20) →
        (gic.word (.cpustate cpuID (.ia grp))).toNat < 16 →
        ∃ source < nCpus,
          pendingSgi gic cpuID (gic.word (.cpustate cpuID (.ia grp))).toNat source
  | _ => True

/-! ## Sending -/

/-- Who is reached by a write of `GICD_SGIR`: with the filter for all but the writer, the
writer is reached as well. -/
theorem sgirReaches_iff {source target : ℕ} (data : Word) (htarget : target < 8) :
    sgirReaches data source target ↔
      SentTo data source target ∨ sgirFilter data = 1 ∧ target = source := by
  have hlist : ((data >>> 16).setWidth 8).getLsbD target = data.getLsbD (16 + target) := by
    rw [BitVec.getLsbD_setWidth, decide_eq_true htarget, Bool.true_and,
      BitVec.getLsbD_ushiftRight]
  have hfilter : ∀ n < 4, ((data >>> 24) &&& 0x3 = BitVec.ofNat 32 n ↔ sgirFilter data = n) := by
    intro n hn
    rw [← BitVec.toNat_inj, BitVec.toNat_ofNat, Nat.mod_eq_of_lt (by omega), sgirFilter]
  have hzero := hfilter 0 (by norm_num)
  have hone := hfilter 1 (by norm_num)
  have htwo := hfilter 2 (by norm_num)
  simp only [sgirReaches, hlist, decide_eq_true_eq]
  rw [show (0 : Word) = BitVec.ofNat 32 0 from rfl, show (1 : Word) = BitVec.ofNat 32 1 from rfl,
    show (2 : Word) = BitVec.ofNat 32 2 from rfl, hzero, hone, htwo, SentTo]
  split <;> rename_i hcase
  · simp [hcase]
  · simp [hcase]
    tauto
  · simp [hcase]
  · simp_all

theorem sgirNumber_lt (data : Word) : sgirNumber data < 16 := by
  have hmask : (0xF : Word).toNat = 15 := rfl
  rw [sgirNumber, BitVec.toNat_and, hmask]
  exact Nat.lt_of_le_of_lt Nat.and_le_right (by norm_num)

/-- One turn of the loop requests the interrupt at one CPU. -/
theorem pendingSgi_writeGicSgirFor {data : Word} {source n target no src : ℕ}
    (hsource : source < 8) (hno : no < 16) (hsrc : src < 8)
    (hturn : writeGicSgirFor data source gic n = some next) :
    pendingSgi next target no src =
      (pendingSgi gic target no src ||
        decide (target = n ∧ no = sgirNumber data ∧ src = source ∧
          sgirReaches data source n)) := by
  unfold writeGicSgirFor at hturn
  dsimp only at hturn
  split_ifs at hturn with hreaches
  · cases hturn
    rw [pendingSgi_set (sgirNumber_lt data) hno hsource hsrc]
    simp only [hreaches, and_true]
  · cases hturn
    rw [decide_eq_false fun h => hreaches h.2.2.2, Bool.or_false]

/-- The loop requests the interrupt at all the CPUs that are reached. -/
theorem pendingSgi_writeGicSgir {data : Word} {source target no src : ℕ}
    (hcpus : nCpus ≤ 8) (hsource : source < nCpus) (htarget : target < nCpus) (hno : no < 16)
    (hsrc : src < 8) (hwrite : writeGicSgir nCpus gic data source = some next) :
    pendingSgi next target no src =
      (pendingSgi gic target no src ||
        decide (no = sgirNumber data ∧ src = source ∧ sgirReaches data source target)) := by
  have hturns : ∀ (ns : List ℕ) (mid : GicArmTlm),
      ns.foldlM (writeGicSgirFor data source) mid = some next →
      pendingSgi next target no src =
        (pendingSgi mid target no src ||
          decide (target ∈ ns ∧ no = sgirNumber data ∧ src = source ∧
            sgirReaches data source target)) := by
    intro ns
    induction ns with
    | nil =>
        intro mid hfold
        cases hfold
        rw [decide_eq_false fun h => List.not_mem_nil h.1, Bool.or_false]
    | cons n rest ih =>
        intro mid hfold
        rw [List.foldlM_cons] at hfold
        obtain ⟨turned, hturn, hrest⟩ := Option.bind_eq_some_iff.mp hfold
        rw [ih turned hrest, pendingSgi_writeGicSgirFor (by omega) hno hsrc hturn, Bool.or_assoc,
          ← Bool.decide_or]
        congr 1
        rw [decide_eq_decide, List.mem_cons]
        grind
  unfold writeGicSgir at hwrite
  rw [if_neg (by omega)] at hwrite
  rw [hturns _ gic hwrite]
  simp only [List.mem_range, htarget, true_and]

/-- A distributor register leads to the matrix from two places only. -/
theorem inRange_of_matrix {reg cpuID cpuID' : ℕ} {n : Fin 4}
    (hplace : distAddresser nCpus reg cpuID = some (.cpustate cpuID' (.sgiMatrix n))) :
    inRange 0x818 8 reg := by
  rw [distAddresser_eq] at hplace
  obtain ⟨register, hregister, hplace⟩ := Option.bind_eq_some_iff.mp hplace
  have hbanked : ∀ field, banked nCpus cpuID field = some (.cpustate cpuID' (.sgiMatrix n)) →
      field = .sgiMatrix n := by
    intro field h
    unfold banked at h
    split_ifs at h
    cases h
    rfl
  have htargets : ∀ m : Fin 8, targetsElement m = .sgiMatrix n → 6 ≤ m.val := by
    intro m hm
    fin_cases m <;> first | (cases hm; done) | simp
  have hfamily : register.family = .targets ∧ 6 ≤ register.n ∧ register.n < 8 := by
    unfold element at hplace
    dsimp only at hplace
    split at hplace <;> split_ifs at hplace <;> first
      | cases hplace
      | cases hbanked _ hplace
      | exact ⟨by assumption, htargets _ (hbanked _ hplace), by assumption⟩
  obtain ⟨hfamily, hlow, hhigh⟩ := hfamily
  unfold registerAt at hregister
  rw [inRange_iff]
  split_ifs at hregister <;> cases hregister <;> cases hfamily
  simp only [inRange_iff] at *
  omega

/-- Events that do not reach the matrix leave the requests. -/
theorem pendingSgi_of_untouched {event : Event} {data : Word} {target no src : ℕ}
    (hstep : step nCpus gic event = some (next, data))
    (huntouched : ∀ cpuID n, ¬Touches nCpus event (.cpustate cpuID (.sgiMatrix n))) :
    pendingSgi next target no src = pendingSgi gic target no src := by
  unfold pendingSgi sgiPlace
  rw [sameOutside_step hstep _ (huntouched target _)]

/-! ## Acknowledging -/

/-- The source in the answer of an acknowledgement. -/
theorem answer_source {ia : Word} (hia : ia.toNat < 1024) {src : ℕ} (hsrc : src < 1024) :
    answerSource (ia ||| BitVec.ofNat 32 src <<< 10) = src := by
  have hshift : (BitVec.ofNat 32 src <<< 10 : Word).toNat = src <<< 10 := by
    have hfits : src <<< 10 < 2 ^ 32 := by
      rw [Nat.shiftLeft_eq]
      omega
    rw [BitVec.toNat_shiftLeft, BitVec.toNat_ofNat,
      Nat.mod_eq_of_lt (by omega : src < 2 ^ 32), Nat.mod_eq_of_lt hfits]
  have hsum : (ia ||| BitVec.ofNat 32 src <<< 10).toNat = src * 2 ^ 10 + ia.toNat := by
    rw [BitVec.toNat_or, hshift, Nat.or_comm, ← Nat.shiftLeft_add_eq_or_of_lt (by omega),
      Nat.shiftLeft_eq]
  rw [answerSource, hsum]
  omega

/-- An acknowledgement of another interrupt leaves the requests. -/
theorem pendingSgi_takeRequest {id cpuID : ℕ} {taken : GicArmTlm × ℕ} {target no src : ℕ}
    (hid : 16 ≤ id) (htake : takeRequest nCpus gic id cpuID = some taken) :
    pendingSgi taken.1 target no src = pendingSgi gic target no src := by
  rcases Nat.lt_or_ge id 1021 with hline | hnone
  · rw [takeRequest_line hid hline] at htake
    cases htake
    dsimp only
    exact pendingSgi_modify_of_ne _ (bitPlace_ne_matrix .unmasked cpuID id)
  · rw [takeRequest_none hnone] at htake
    cases htake
    rfl

/-- The requests after an acknowledgement that gives an interrupt and its source. -/
def TakenBack (gic next : GicArmTlm) (cpuID : ℕ) (data : Word) : Prop :=
  ∀ target no src, no < 16 → src < 8 →
    pendingSgi next target no src =
      (pendingSgi gic target no src &&
        !decide (target = cpuID ∧ no = answerNumber data ∧ src = answerSource data))

/-- An acknowledgement takes back one pending request, if the register shows a software
interrupt and there is a request for it. -/
theorem takenBack_of_notify {cpuID : ℕ} {data : Word} (hcpus : nCpus ≤ 8)
    (hcpu : cpuID < nCpus) (hia : (gic.word (.cpustate cpuID (.ia grp))).toNat < 1024)
    (hsource : (gic.word (.cpustate cpuID (.ia grp))).toNat < 16 → ∃ source < nCpus,
      pendingSgi gic cpuID (gic.word (.cpustate cpuID (.ia grp))).toNat source)
    (hnotify : notifyIntAcknowledge nCpus gic grp cpuID = some (next, data)) :
    TakenBack gic next cpuID data ∧
      (answerNumber data < 16 → answerSource data < nCpus ∧
        pendingSgi gic cpuID (answerNumber data) (answerSource data)) := by
  rw [notifyIntAcknowledge_eq hcpu rfl hia, Option.map_eq_some_iff] at hnotify
  obtain ⟨⟨taken, src'⟩, htake, hresult⟩ := hnotify
  rw [Prod.mk.injEq] at hresult
  obtain ⟨rfl, rfl⟩ := hresult
  dsimp only
  have hnumber : answerNumber (gic.word (.cpustate cpuID (.ia grp)) |||
      BitVec.ofNat 32 src' <<< 10) = (gic.word (.cpustate cpuID (.ia grp))).toNat :=
    answer_mod hia src'
  rw [hnumber]
  rcases Nat.lt_or_ge (gic.word (.cpustate cpuID (.ia grp))).toNat 16 with hsgi | hother
  · obtain ⟨source, hlt, hpending⟩ := hsource hsgi
    obtain ⟨hfirst, hlow, hbit⟩ := firstSource_of_pending hlt hpending (by omega)
    have hshift : firstSource nCpus (srcBitfield gic cpuID
        (gic.word (.cpustate cpuID (.ia grp))).toNat) +
        sgiShift (gic.word (.cpustate cpuID (.ia grp))).toNat < 32 := by
      unfold sgiShift
      omega
    rw [takeRequest_sgi hsgi, if_pos hshift, Option.some.injEq, Prod.mk.injEq] at htake
    obtain ⟨rfl, rfl⟩ := htake
    have hanswer := answer_source hia (Nat.lt_trans hlow (by norm_num))
    refine ⟨fun target no src hno hsrc => ?_, fun _ => ?_⟩
    · rw [acknowledged_sgi, pendingSgi_clear hsgi hno hlow hsrc, hnumber, hanswer]
    · rw [hanswer]
      exact ⟨hfirst, hbit⟩
  · refine ⟨fun target no src hno _ => ?_, fun hsgi => absurd hsgi (Nat.not_lt.mpr hother)⟩
    have hne : ¬(target = cpuID ∧ no = (gic.word (.cpustate cpuID (.ia grp))).toNat ∧
        src = answerSource (gic.word (.cpustate cpuID (.ia grp)) |||
          BitVec.ofNat 32 src' <<< 10)) := by
      omega
    rw [acknowledged_sgi, pendingSgi_takeRequest hother htake, hnumber, decide_eq_false hne,
      Bool.not_false, Bool.and_true]

/-! ## Steps -/

theorem step_of_answered (hstep : answered nCpus gic entry = some next) :
    step nCpus gic entry.1 = some (next, entry.2) := by
  obtain ⟨⟨served, data⟩, hserved, hanswer⟩ := Option.bind_eq_some_iff.mp hstep
  dsimp only at hanswer
  split_ifs at hanswer with hdata
  cases hanswer
  rw [hserved, hdata]

/-- A write of `GICD_SGIR` makes the requests that it should. -/
theorem pending_send {cpuID : ℕ} {data answer : Word} (hcpus : nCpus ≤ 8)
    (hdelivers : Delivers nCpus gic (.writeDist 0xF00 cpuID data, answer))
    (hstep : step nCpus gic (.writeDist 0xF00 cpuID data) = some (next, answer))
    (sgi : Sgi nCpus) :
    sgi.pending next =
      (sgi.change (.writeDist 0xF00 cpuID data, answer)).elim (sgi.pending gic) id := by
  simp only [step] at hstep
  split_ifs at hstep with hcpu
  obtain ⟨written, hwrite, hsame⟩ := Option.map_eq_some_iff.mp hstep
  rw [Prod.mk.injEq] at hsame
  obtain ⟨rfl, -⟩ := hsame
  have hwrite' : writeGicSgir nCpus gic data cpuID = some written := by
    simpa [writeDist, inRange] using hwrite
  have htarget : (sgi.target : ℕ) < 8 := Nat.lt_of_lt_of_le sgi.target.isLt hcpus
  have hself : sgirFilter data = 1 → pendingSgi gic cpuID (sgirNumber data) cpuID :=
    hdelivers rfl
  rw [Sgi.pending, pendingSgi_writeGicSgir hcpus hcpu sgi.target.isLt sgi.no.isLt
    (Nat.lt_of_lt_of_le sgi.source.isLt hcpus) hwrite', Sgi.change]
  simp only [sgirReaches_iff data htarget]
  by_cases hsent : cpuID = sgi.source ∧ sgirNumber data = sgi.no ∧
      SentTo data cpuID sgi.target
  · rw [if_pos ⟨trivial, hsent⟩, decide_eq_true ⟨hsent.2.1.symm, hsent.1.symm, .inl hsent.2.2⟩,
      Bool.or_true]
    rfl
  · rw [if_neg fun h => hsent h.2, Option.elim_none, Sgi.pending]
    -- the writer that reaches itself has its request already
    refine Bool.or_eq_left_iff_imp.mpr fun hreached => ?_
    rw [decide_eq_true_eq] at hreached
    obtain ⟨hno, hsource, hsent' | ⟨hfilter, hwriter⟩⟩ := hreached
    · exact absurd ⟨hsource.symm, hno.symm, hsent'⟩ hsent
    · rw [hwriter, hno, hsource]
      exact hself hfilter

/-- The acknowledge register that a read of a CPU interface is of. -/
theorem notify_of_readCpu {reg cpuID : ℕ} {data : Word} (hreg : reg = 0x0c ∨ reg = 0x20)
    (hstep : step nCpus gic (.readCpu reg cpuID) = some (next, data)) :
    cpuID < nCpus ∧ ∃ grp : Fin 2, reg = (if grp = 0 then 0x0c else 0x20) ∧
      notifyIntAcknowledge nCpus gic grp cpuID = some (next, data) := by
  simp only [step, readCpu] at hstep
  split_ifs at hstep with hcpu hiar haiar
  · exact ⟨hcpu, 0, hiar, hstep⟩
  · exact ⟨hcpu, 1, haiar, hstep⟩
  · exact absurd hreg (not_or.mpr ⟨hiar, haiar⟩)

/-- An acknowledgement takes back the request that it gives. -/
theorem takenBack_of_step {reg cpuID : ℕ} {data : Word} (hcpus : nCpus ≤ 8)
    (htelling : Telling nCpus gic) (hdelivers : Delivers nCpus gic (.readCpu reg cpuID, data))
    (hreg : reg = 0x0c ∨ reg = 0x20)
    (hstep : step nCpus gic (.readCpu reg cpuID) = some (next, data)) :
    cpuID < nCpus ∧ TakenBack gic next cpuID data ∧
      (answerNumber data < 16 → answerSource data < nCpus ∧
        pendingSgi gic cpuID (answerNumber data) (answerSource data)) := by
  obtain ⟨hcpu, grp, hgrp, hnotify⟩ := notify_of_readCpu hreg hstep
  exact ⟨hcpu, takenBack_of_notify hcpus hcpu (htelling cpuID hcpu grp) (hdelivers grp hgrp)
    hnotify⟩

/-- Each event does to a request what it should. -/
theorem pending_step (hcpus : nCpus ≤ 8) (htelling : Telling nCpus gic)
    (hordinary : entry.1.Ordinary) (hdelivers : Delivers nCpus gic entry)
    (hstep : answered nCpus gic entry = some next) (sgi : Sgi nCpus) :
    sgi.pending next = (sgi.change entry).elim (sgi.pending gic) id := by
  have hserved := step_of_answered hstep
  obtain ⟨event, data⟩ := entry
  dsimp only at hserved hordinary
  cases event with
  | distribute =>
      refine pendingSgi_of_untouched hserved fun cpuID n htouched => ?_
      obtain ⟨_, _, hplace | hplace⟩ := htouched <;> cases hplace
  | spi word input =>
      refine pendingSgi_of_untouched hserved fun cpuID n htouched => ?_
      obtain ⟨_, hplace⟩ | ⟨_, hplace⟩ := htouched <;> cases hplace
  | ppi inputs =>
      refine pendingSgi_of_untouched hserved fun cpuID n htouched => ?_
      obtain ⟨_, hplace⟩ | ⟨_, hplace⟩ := htouched <;> cases hplace
  | readDist reg cpuID =>
      exact pendingSgi_of_untouched hserved fun cpuID n htouched => htouched
  | writeDist reg cpuID input =>
      rcases hordinary with rfl | ⟨hsgi, hclear, hmatrix⟩
      · exact pending_send hcpus hdelivers hserved sgi
      · have hchange : sgi.change (.writeDist reg cpuID input, data) = none :=
          if_neg fun h => hsgi (.inl h.1)
        rw [hchange]
        refine pendingSgi_of_untouched hserved fun cpuID' n htouched => ?_
        rcases htouched with hplace | ⟨-, h | h⟩
        · exact hmatrix (inRange_of_matrix hplace)
        · exact hsgi h
        · exact hclear h
  | readCpu reg cpuID =>
      by_cases hreg : reg = 0x0c ∨ reg = 0x20
      · obtain ⟨-, htaken, -⟩ := takenBack_of_step hcpus htelling hdelivers hreg hserved
        rw [Sgi.pending, htaken _ _ _ sgi.no.isLt (Nat.lt_of_lt_of_le sgi.source.isLt hcpus),
          Sgi.change]
        by_cases hgiven : cpuID = sgi.target ∧ answerNumber data = sgi.no ∧
            answerSource data = sgi.source
        · rw [if_pos ⟨hreg, hgiven⟩,
            decide_eq_true ⟨hgiven.1.symm, hgiven.2.1.symm, hgiven.2.2.symm⟩, Bool.not_true,
            Bool.and_false]
          rfl
        · rw [if_neg fun h => hgiven h.2,
            decide_eq_false fun h => hgiven ⟨h.1.symm, h.2.1.symm, h.2.2.symm⟩, Bool.not_false,
            Bool.and_true]
          rfl
      · have hchange : sgi.change (.readCpu reg cpuID, data) = none := if_neg fun h => hreg h.1
        rw [hchange]
        exact pendingSgi_of_untouched hserved fun _ _ htouched => hreg htouched.1
  | writeCpu reg cpuID input =>
      by_cases heoi : reg = 0x10 ∨ reg = 0x24
      · simp only [step, writeCpu, if_pos heoi] at hserved
        split_ifs at hserved with hcpu
        obtain ⟨ended, hend, hsame⟩ := Option.map_eq_some_iff.mp hserved
        rw [Prod.mk.injEq] at hsame
        obtain ⟨rfl, -⟩ := hsame
        obtain ⟨other, hother, hframe, -⟩ := endFrame hcpu gic input
        rw [hend, Option.some.injEq] at hother
        subst hother
        exact hframe _ _ _ sgi.no.isLt (Nat.lt_of_lt_of_le sgi.source.isLt hcpus)
      · refine pendingSgi_of_untouched hserved fun cpuID' n htouched => ?_
        rcases htouched with hplace | ⟨h, -⟩
        · unfold cpuAddresser at hplace
          split at hplace <;> cases hplace
        · exact heoi h

/-! ## Runs -/

theorem Event.Ordinary.keepsAcknowledge {event : Event} (hordinary : event.Ordinary) :
    event.KeepsAcknowledge := by
  cases event with
  | writeDist reg cpuID data => trivial
  | _ => exact hordinary

/-- Nothing has been sent to a new controller. -/
theorem pending_started (left : GicArmTlm) (sgi : Sgi nCpus) :
    sgi.pending (started nCpus left) = false := by
  have huntouched : ∀ cpuID n,
      ¬Touches nCpus .distribute (.cpustate cpuID (.sgiMatrix n)) := by
    rintro cpuID n ⟨_, _, hplace | hplace⟩ <;> cases hplace
  have hword : (started nCpus left).word (sgiPlace sgi.target sgi.no) = 0 := by
    rw [started, sgiPlace, sameOutside_distribute _ _ (huntouched _ _)]
    exact if_pos sgi.target.isLt
  rw [Sgi.pending, pendingSgi, hword]
  exact BitVec.getLsbD_zero

/-- A run that delivers finds numbers of interrupts in the acknowledge registers. -/
theorem meets_telling {left : GicArmTlm} {history : List (Event × Word)}
    (hordinary : ∀ entry ∈ history, entry.1.Ordinary)
    (hdelivers : Guarded.Meets (answered nCpus) (Delivers nCpus) (started nCpus left) history) :
    Guarded.Meets (answered nCpus)
      (fun gic entry => Telling nCpus gic ∧ entry.1.Ordinary ∧ Delivers nCpus gic entry)
      (started nCpus left) history := by
  have hstep : ∀ (gic : GicArmTlm) (entry : Event × Word) next, Telling nCpus gic →
      (entry.1.Ordinary ∧ Delivers nCpus gic entry) → answered nCpus gic entry = some next →
      Telling nCpus next := by
    intro gic entry next htelling hguard hnext
    exact htelling.step hguard.1.keepsAcknowledge (step_of_answered hnext)
  have hordinary' : Guarded.Meets (answered nCpus) (fun _ entry => entry.1.Ordinary)
      (started nCpus left) history :=
    Guarded.meets_of_forall _ hordinary
  exact Guarded.meets_invariant hstep (telling_started left)
    (Guarded.meets_and hordinary' hdelivers)

/-- What is pending in the end is what was last sent and not taken since. -/
theorem pending_of_run (hcpus : nCpus ≤ 8) {left final : GicArmTlm}
    {history : List (Event × Word)}
    (hguard : Guarded.Meets (answered nCpus)
      (fun gic entry => Telling nCpus gic ∧ entry.1.Ordinary ∧ Delivers nCpus gic entry)
      (started nCpus left) history)
    (hrun : Guarded.exec (answered nCpus) (started nCpus left) history = some final)
    (sgi : Sgi nCpus) :
    sgi.pending final = (Guarded.latest sgi.change history).getD false := by
  have hstep : ∀ (gic : GicArmTlm) (entry : Event × Word) next,
      (Telling nCpus gic ∧ entry.1.Ordinary ∧ Delivers nCpus gic entry) →
      answered nCpus gic entry = some next →
      sgi.pending next = (sgi.change entry).elim (sgi.pending gic) id := by
    intro gic entry next hguard hnext
    exact pending_step hcpus hguard.1 hguard.2.1 hguard.2.2 hnext sgi
  rw [Guarded.exec_latest hstep hguard hrun, pending_started]
  cases Guarded.latest sgi.change history <;> rfl

/-- In a run in which no write for all but the writer makes a new request for the writer,
and no acknowledge register that is read shows a software interrupt that has no source,
the software interrupts are delivered to their targets and taken once. -/
theorem sgis_delivered (nCpus : ℕ) (hcpus : nCpus ≤ 8) (left final : GicArmTlm)
    (history : List (Event × Word)) (hordinary : ∀ entry ∈ history, entry.1.Ordinary)
    (hdelivers : Guarded.Meets (answered nCpus) (Delivers nCpus) (started nCpus left) history)
    (hrun : Guarded.exec (answered nCpus) (started nCpus left) history = some final) :
    SgisDelivered nCpus history final := by
  have hguard := meets_telling hordinary hdelivers
  refine ⟨pending_of_run hcpus hguard hrun, ?_⟩
  rintro before ⟨event, data⟩ after rfl target no ⟨hread, hnumber, hno⟩
  obtain ⟨hbefore, hthere⟩ := Guarded.meets_append hguard
  rw [Guarded.exec_append] at hrun
  obtain ⟨gic, hgic, hrest⟩ := Option.bind_eq_some_iff.mp hrun
  obtain ⟨next, hnext, -⟩ := Guarded.exec_cons_eq_some.mp hrest
  obtain ⟨⟨htelling, -, hguarded⟩, -⟩ := hthere gic hgic
  obtain ⟨reg, hreg, rfl⟩ : ∃ reg, (reg = 0x0c ∨ reg = 0x20) ∧ event = .readCpu reg target := by
    rcases hread with h | h
    · exact ⟨0x0c, .inl rfl, h⟩
    · exact ⟨0x20, .inr rfl, h⟩
  obtain ⟨htarget, -, htaken⟩ :=
    takenBack_of_step hcpus htelling hguarded hreg (step_of_answered hnext)
  obtain ⟨hsource, hpending⟩ := htaken (hnumber.trans_lt hno)
  let sgi : Sgi nCpus := ⟨⟨answerSource data, hsource⟩, ⟨target, htarget⟩, ⟨no, hno⟩⟩
  refine ⟨sgi, rfl, rfl, rfl, ?_⟩
  have hlatest : (Guarded.latest sgi.change before).getD false = true := by
    rw [← pending_of_run hcpus hbefore hgic sgi, Sgi.pending, ← hpending]
    exact congrArg (fun n => pendingSgi gic target n (answerSource data)) hnumber.symm
  cases hsent : Guarded.latest sgi.change before with
  | none => rw [hsent] at hlatest; cases hlatest
  | some made => rw [hsent] at hlatest; exact congrArg some hlatest

/-- The second CPU interrupts the first, which acknowledges the interrupt and ends it. -/
def delivering : List (Event × Word) :=
  [(.writeDist 0x000 0 0x3, 0), (.writeDist 0x100 0 0xFFFF, 0), (.writeCpu 0x00 0 0x1, 0),
    (.writeDist 0xF00 1 0x00010003, 0), (.distribute, 0), (.readCpu 0x0c 0, 0x403),
    (.writeCpu 0x10 0 0x403, 0)]

instance (gic : GicArmTlm) (entry : Event × Word) : Decidable (Delivers nCpus gic entry) := by
  unfold Delivers
  split <;> infer_instance

instance (reg : ℕ) : Decidable (SgiRegister reg) := by
  unfold SgiRegister
  infer_instance

instance (event : Event) : Decidable event.Ordinary := by
  cases event <;> unfold Event.Ordinary <;> dsimp only [Event.KeepsAcknowledge] <;>
    infer_instance

theorem sgis_delivered_delivering :
    ∃ final, Guarded.exec (answered 2) (started 2 blank) delivering = some final ∧
      SgisDelivered 2 delivering final := by
  have hrun : (Guarded.exec (answered 2) (started 2 blank) delivering).isSome := by
    decide +kernel
  obtain ⟨final, hfinal⟩ := Option.isSome_iff_exists.mp hrun
  have hdelivers : Guarded.Meets (answered 2) (Delivers 2) (started 2 blank) delivering := by
    decide +kernel
  have hordinary : ∀ entry ∈ delivering, entry.1.Ordinary := by
    decide +kernel
  exact ⟨final, hfinal, sgis_delivered 2 (by norm_num) blank final delivering hordinary
    hdelivers hfinal⟩

/-- A CPU that interrupts all but itself interrupts itself too. -/
theorem not_sgis_delivered_self :
    ¬∀ (nCpus : ℕ) (left final : GicArmTlm) (history : List (Event × Word)), nCpus ≤ 8 →
      (∀ entry ∈ history, entry.1.Ordinary) →
      Guarded.exec (answered nCpus) (started nCpus left) history = some final →
      SgisDelivered nCpus history final := by
  intro hclaim
  let toAllButSelf : List (Event × Word) := [(.writeDist 0xF00 0 0x01000000, 0)]
  have hvalues : (Guarded.exec (answered 2) (started 2 blank) toAllButSelf).map
      (fun final => pendingSgi final 0 0 0) = some true := by
    decide +kernel
  obtain ⟨final, hrun, hself⟩ := Option.map_eq_some_iff.mp hvalues
  have hdelivered := (hclaim 2 blank final toAllButSelf (by norm_num) (by decide +kernel) hrun).1
    ⟨0, 0, 0⟩
  have hunsent : Guarded.latest (Sgi.change ⟨(0 : Fin 2), 0, 0⟩) toAllButSelf = none := by
    decide +kernel
  rw [hunsent, Sgi.pending] at hdelivered
  exact Bool.false_ne_true (hdelivered.symm.trans hself)

end Prazor.Gic
