import Prazor.Core.Guarded
import Prazor.Memory.BufferedAccesses

/-!
# The cache is a transparent memory

From power-on every run of accesses answers as the flat memory, and cleaning
leaves the flat memory in the secondary storage, for exactly the caches with
one bank and with blocks that fit the write buffer.
-/

namespace Prazor.Memory

open Prazor.Tlm

namespace Cache64

variable {geom : CacheGeom} {cache : Cache64}

/-! ## Cleaning the whole cache -/

section Clean

variable {flat : ℕ → Byte}

/-- Cleaning all lines of the ways leaves them without dirty data. -/
theorem cleanWays_spec (hbanks : geom.secondaryBanks = 1)
    (hshows : Shows geom cache flat) :
    ∃ next, (List.range geom.ways).foldlM (fun cache w =>
        (List.range geom.dmapping).foldlM (fun cache l => cleanWay geom cache w l) cache)
        cache = some next ∧
      Shows geom next flat ∧
      ∀ w l, w < geom.ways → l < geom.dmapping → ¬next.lineDirty w l := by
  -- a mark is a place that is not dirty; one line settles one, one way a row of them
  have hline : ∀ w, w < geom.ways → ∀ (cache : Cache64) l, l ∈ List.range geom.dmapping →
      Shows geom cache flat → ∃ next, cleanWay geom cache w l = some next ∧
        Shows geom next flat ∧
        (∀ mark : ℕ × ℕ, mark = (w, l) → ¬next.lineDirty mark.1 mark.2) ∧
        ∀ mark : ℕ × ℕ, ¬cache.lineDirty mark.1 mark.2 → ¬next.lineDirty mark.1 mark.2 := by
    intro w hw cache l hl hshows
    obtain ⟨next, hclean, hnext, hsettled, -, hsame⟩ :=
      cleanWay_spec hbanks hshows hw (List.mem_range.mp hl)
    refine ⟨next, hclean, hnext, fun mark hmark => hmark ▸ hsettled, fun mark hnot => ?_⟩
    by_cases hplace : mark.1 = w ∧ mark.2 = l
    · rw [hplace.1, hplace.2]
      exact hsettled
    · exact fun hdirty => hnot ((hsame _ _ hplace).2.mp hdirty)
  have hway : ∀ (cache : Cache64) w, w ∈ List.range geom.ways → Shows geom cache flat →
      ∃ next, (List.range geom.dmapping).foldlM
          (fun cache l => cleanWay geom cache w l) cache = some next ∧
        Shows geom next flat ∧
        (∀ mark : ℕ × ℕ, mark.1 = w ∧ mark.2 < geom.dmapping →
          ¬next.lineDirty mark.1 mark.2) ∧
        ∀ mark : ℕ × ℕ, ¬cache.lineDirty mark.1 mark.2 →
          ¬next.lineDirty mark.1 mark.2 := by
    intro cache w hw hshows
    obtain ⟨next, hfold, hnext, hlines, hkeeps⟩ :=
      Guarded.foldlM_settles (hline w (List.mem_range.mp hw)) hshows
    exact ⟨next, hfold, hnext, fun mark hmark =>
      hlines mark.2 (List.mem_range.mpr hmark.2) mark (Prod.ext hmark.1 rfl), hkeeps⟩
  obtain ⟨next, hfold, hnext, hways, -⟩ := Guarded.foldlM_settles hway hshows
  exact ⟨next, hfold, hnext, fun w l hw hl =>
    hways w (List.mem_range.mpr hw) (w, l) ⟨rfl, hl⟩⟩

/-- After cleaning the secondary storage is the flat memory. -/
theorem clean_spec (hbanks : geom.secondaryBanks = 1)
    (hblock : geom.useWriteBuffer → geom.secondaryBlocksizeBytes = geom.linesize)
    (hshows : Shows geom cache flat) :
    ∃ next, clean geom cache = some next ∧
      ∀ a, next.secondary (geom.bank (geom.lineAddr a)) a = flat a := by
  obtain ⟨mid, hways, hmid, hlines⟩ := cleanWays_spec hbanks hshows
  obtain ⟨next, hclean, hnext, hbuf, hcont, -⟩ := cleanBuffer_spec hbanks hblock hmid
  refine ⟨next, ?_, fun a => ?_⟩
  · rw [clean, hways, Option.bind_some, hclean]
  · refine congrFun (hnext.agrees.memory_eq fun holder a hdirty => ?_) a
    cases holder with
    | inl place =>
        obtain ⟨w, d⟩ := place
        change next.lineDirty w d at hdirty
        change (lines geom next).held (shape geom) (w, d) a = none
        rw [TaggedLines.held, if_neg]
        rintro ⟨hw, hindex, -⟩
        rw [lineDirty, hcont] at hdirty
        have hlt : d < geom.dmapping := lt_of_eq_of_lt hindex.symm (geom.dmap_lt _)
        exact hlines w d hw hlt hdirty
    | inr other =>
        refine bufferedByte_of_miss ?_
        rw [hit, hbuf]
        cases mid.buf0 <;> simp

end Clean

/-! ## Runs -/

/-- The memory a user sees at first: each line in the bank it is read from. -/
def firstFlat (geom : CacheGeom) (secondary : ℕ → ℕ → Byte) : ℕ → Byte := fun a =>
  secondary (geom.bank (geom.lineAddr a)) a

theorem shows_powerOn (tags : ℕ → ℕ → ℕ) (data : ℕ → Buffer) (cline : Buffer)
    (secondary : ℕ → ℕ → Byte) :
    Shows geom (powerOn geom tags data cline secondary) (firstFlat geom secondary) where
  placed :=
    { built := by cases hbuf : geom.useWriteBuffer <;> simp [powerOn, hbuf]
      lru_lt := geom.ways_pos
      lines :=
        { index := fun w d line _ htag => by simp [lines, powerOn] at htag
          unique := fun w w' d line _ _ htag => by simp [lines, powerOn] at htag }
      aligned := fun w d line _ htag => by simp [lines, powerOn] at htag
      buffer := fun buf line hhit => by
        obtain ⟨hbuf, hline⟩ := hit_eq_some.mp hhit
        cases huse : geom.useWriteBuffer
        · simp [powerOn, huse] at hbuf
        · simp only [powerOn, huse, if_true, Option.some.injEq] at hbuf
          rw [← hbuf] at hline
          cases hline }
  agrees := by
    change (layers geom (powerOn geom tags data cline secondary)).Agrees
      (layers geom (powerOn geom tags data cline secondary)).memory
    refine Layers.Agrees.of_held_none fun holder a => ?_
    cases holder with
    | inl place =>
        refine TaggedLines.held_of_absent (fun w _ htag => ?_) place
        simp [lines, powerOn] at htag
    | inr other =>
        refine bufferedByte_of_miss ?_
        cases huse : geom.useWriteBuffer <;> simp [hit, powerOn, huse]

/-- Cleaning the write buffer writes the bytes whose dirty lanes are set, each
to its own address, and no other. -/
def CleansDirtyBytes (geom : CacheGeom) (cache : Cache64) : Prop :=
  ∃ next, cleanBuffer geom cache = some next ∧ ∀ b a, next.secondary b a =
    if b = geom.bank (geom.lineAddr a) then
      overlay (bufferedByte geom cache) (cache.secondary b) a
    else cache.secondary b a

/-- Every run of plain accesses from power-on answers as the flat memory, no
copy leaves its arrays, and cleaning leaves the flat memory behind. -/
def Transparent (geom : CacheGeom) : Prop :=
  ∀ tags data cline secondary (requests : List Payload),
    (∀ trans ∈ requests, Plain trans) →
    ∃ final cleaned,
      Guarded.serve (bAccess geom) (powerOn geom tags data cline secondary) requests =
        some (final, Machine.outputs flatAccess (firstFlat geom secondary) requests) ∧
      CleansDirtyBytes geom final ∧
      clean geom final = some cleaned ∧
      ∀ a, cleaned.secondary (geom.bank (geom.lineAddr a)) a =
        Machine.run flatAccess (firstFlat geom secondary) requests a

theorem transparent_of_single_block (hbanks : geom.secondaryBanks = 1)
    (hblock : geom.useWriteBuffer → geom.secondaryBlocksizeBytes = geom.linesize) :
    Transparent geom := by
  intro tags data cline secondary requests hplain
  have hstep : ∀ cache flat trans, Shows geom cache flat → Plain trans →
      ∃ next, bAccess geom cache trans = some (next, (flatAccess flat trans).2) ∧
        Shows geom next (flatAccess flat trans).1 :=
    fun cache flat trans hshows hplain => bAccess_refines hbanks hblock hshows hplain
  obtain ⟨final, hserve, hfinal⟩ := Guarded.serve_refines hstep
    (shows_powerOn tags data cline secondary) (Guarded.meets_of_forall _ hplain)
  obtain ⟨cleaned, hclean, hmemory⟩ := clean_spec hbanks hblock hfinal
  refine ⟨final, cleaned, hserve, ?_, hclean, hmemory⟩
  obtain ⟨next, hbuffer, -, -, -, hsecondary⟩ := cleanBuffer_spec hbanks hblock hfinal
  refine ⟨next, hbuffer, fun b a => ?_⟩
  rw [hsecondary, geom.bank_of_single hbanks]
  by_cases hb : b = 0
  · subst hb
    simp
  · simp [hb]

/-! ## Where a cache is not transparent -/

section Overrun

/-- A store of eight ones, with all byte enables. -/
def storeOnes (address : ℕ) : Payload where
  command := .write
  address := BitVec.ofNat 64 address
  data := fun _ => 1
  dataLength := 8
  byteEnable := none
  byteEnableLength := 0
  llsc := none
  response := .incomplete

/-- A cache after power-on, all arrays zero. -/
def blank (geom : CacheGeom) : Cache64 :=
  powerOn geom (fun _ _ => 0) (fun _ _ => 0) (fun _ => 0) fun _ _ => 0

variable {a : ℕ}

theorem storeOnes_address (hlt : a < 2 ^ 64) : (storeOnes a).address.toNat = a := by
  rw [storeOnes, BitVec.toNat_ofNat, Nat.mod_eq_of_lt hlt]

theorem plain_storeOnes (haligned : a % 8 = 0) (hlt : a < 2 ^ 64) :
    Plain (storeOnes a) where
  aligned := by rw [storeOnes_address hlt, haligned]
  length_le := le_refl 8
  read_pos := fun hread => by cases hread
  enables := fun hsome => by cases hsome

theorem find_ways_blank (geom : CacheGeom) (dmap line : ℕ) :
    ((List.range geom.ways).find? fun w => (blank geom).present w dmap line) = none := by
  simp [blank, present, powerOn]

theorem bAccess_storeOnes_eq (cache : Cache64) (hlt : a < 2 ^ 64) :
    bAccess geom cache (storeOnes a) =
      (writeBack geom cache (storeOnes a) (geom.lineAddr a) (geom.loffset a)
        (geom.dmap a)).map fun cache => (cache, { storeOnes a with response := .ok }) := by
  have hlength : (storeOnes a).dataLength = 8 := rfl
  have hcommand : (storeOnes a).command = .write := rfl
  rw [bAccess, storeOnes_address hlt]
  simp [hlength, hcommand]

/-- The first store goes to the write buffer. -/
theorem bAccess_storeOnes (geom : CacheGeom) (huse : geom.useWriteBuffer = true)
    (haligned : a % 8 = 0)
    (hlt : a < 2 ^ 64) :
    ∃ buf, bAccess geom (blank geom) (storeOnes a) =
        some ({ blank geom with buf0 := some buf },
          { storeOnes a with response := .ok }) ∧
      buf.mAddr = some (geom.lineAddr a) ∧ buf.dirty (a % geom.linesize) = true := by
  have hle := geom.loffset_add_le haligned
  have hmax := geom.linesize_le
  let empty : WriteBuffer :=
    { mAddr := some (geom.lineAddr a), dirty := fun _ => false, cline := fun _ => 0 }
  refine ⟨{ empty with
      dirty := markDirty (storeOnes a) (geom.loffset a) empty.dirty
      cline := mergeLanes (storeOnes a) (8 * geom.loffset a) empty.cline }, ?_, rfl, ?_⟩
  · have hfind := find_ways_blank geom (geom.dmap a) (geom.lineAddr a)
    have hbuf : (blank geom).buf0 =
        some { mAddr := none, dirty := fun _ => false, cline := fun _ => 0 } := by
      simp [blank, powerOn, huse]
    have hmiss : (blank geom).hit (geom.lineAddr a) = none := by simp [hit, hbuf]
    have hclean : cleanBuffer geom (blank geom) = some (blank geom) := by
      refine cleanBuffer_of_empty fun buf hother => ?_
      rw [hbuf, Option.some.injEq] at hother
      rw [← hother]
    have hroom : 8 * geom.loffset a + 8 ≤ geom.linesize ∧
        8 * geom.loffset a + (storeOnes a).dataLength ≤ maxLinesize :=
      ⟨hle, le_trans hle hmax⟩
    have hwrite : writeBack geom (blank geom) (storeOnes a) (geom.lineAddr a)
        (geom.loffset a) (geom.dmap a) =
        storeBuffer geom (blank geom) empty (geom.loffset a) (storeOnes a) := by
      rw [writeBack, hmiss]
      simp only [lookup, hfind, Bool.false_eq_true, if_false, Option.bind_some, hbuf,
        hclean, initBuffer, if_true]
      rfl
    rw [bAccess_storeOnes_eq _ hlt, hwrite, storeBuffer, if_pos hroom]
    rfl
  · have hoffset := geom.loffset_of_aligned haligned
    simp only [markDirty, foldl_update_lanes]
    exact if_pos ⟨by omega, by simp only [storeOnes]; omega, rfl⟩

/-- Without a write buffer the first store goes past the cache. -/
theorem bAccess_storeOnes_past (huse : geom.useWriteBuffer = false) (hlt : a < 2 ^ 64) :
    bAccess geom (blank geom) (storeOnes a) =
      some ((blank geom).sendWrite a 8 (byteEnabled (storeOnes a)) (storeOnes a).data,
        { storeOnes a with response := .ok }) := by
  have hfind := find_ways_blank geom (geom.dmap a) (geom.lineAddr a)
  have hbuf : (blank geom).buf0 = none := by simp [blank, powerOn, huse]
  have hmiss : (blank geom).hit (geom.lineAddr a) = none := by simp [hit, hbuf]
  rw [bAccess_storeOnes_eq _ hlt, writeBack, hmiss]
  simp only [lookup, hfind, Bool.false_eq_true, if_false, Option.bind_some, hbuf,
    storeOnes_address hlt]
  rfl

/-- The copy of a block that is longer than the write buffer leaves the buffer. -/
theorem cleanBuffer_of_wide {cache : Cache64} {buf : WriteBuffer} {line i : ℕ}
    (hhit : cache.hit line = some buf) (hi : i < geom.linesize)
    (hdirty : buf.dirty i = true)
    (hwide : geom.secondaryBlocksizeBytes ≠ geom.linesize) :
    cleanBuffer geom cache = none := by
  obtain ⟨hbuf, hline⟩ := hit_eq_some.mp hhit
  have hge : geom.linesize ≤ geom.secondaryBlocksizeBytes := geom.blocksize_ge
  have hcopy : copyBytes geom.secondaryBlocksizeBytes buf.cline geom.linesize 0
      maxLinesize = none := by
    rw [copyBytes, if_neg]
    omega
  simpa [cleanBuffer, hbuf, hline, geom.blocks_eq, geom.transferLength_eq, hcopy]
    using ⟨i, hi, hdirty⟩

/-- Where no line is modified only the write buffer is written out. -/
theorem clean_of_unmodified {cache : Cache64} (hclean : ∀ w l, ¬cache.lineDirty w l) :
    clean geom cache = cleanBuffer geom cache := by
  have hlines : ∀ w (places : List ℕ),
      places.foldlM (fun cache l => cleanWay geom cache w l) cache = some cache := by
    intro w places
    induction places with
    | nil => rfl
    | cons l rest ih => rw [List.foldlM_cons, cleanWay_of_clean (hclean w l)]; exact ih
  have hways : ∀ ways : List ℕ, ways.foldlM (fun cache w =>
      (List.range geom.dmapping).foldlM (fun cache l => cleanWay geom cache w l) cache)
      cache = some cache := by
    intro ways
    induction ways with
    | nil => rfl
    | cons w rest ih => rw [List.foldlM_cons, hlines]; exact ih
  rw [clean, hways, Option.bind_some]

theorem serve_storeOnes {next : Cache64} {answer : Payload}
    (hstep : bAccess geom (blank geom) (storeOnes a) = some (next, answer)) :
    Guarded.serve (bAccess geom) (blank geom) [storeOnes a] = some (next, [answer]) := by
  rw [Guarded.serve, hstep]
  rfl

/-- One store and the cleaning after it copy past the end of the write buffer
when a block of the secondary storage is longer than a line. -/
theorem not_transparent_of_wide (huse : geom.useWriteBuffer = true)
    (hwide : geom.secondaryBlocksizeBytes ≠ geom.linesize) : ¬Transparent geom := by
  intro htransparent
  obtain ⟨final, cleaned, hserve, -, hclean, -⟩ := htransparent (fun _ _ => 0)
    (fun _ _ => 0) (fun _ => 0) (fun _ _ => 0) [storeOnes 0]
    (by simpa using plain_storeOnes (a := 0) rfl (by norm_num))
  obtain ⟨buf, hstep, hline, hdirty⟩ :=
    bAccess_storeOnes geom (a := 0) huse rfl (by norm_num)
  have hfinal := congrArg Prod.fst
    (Option.some.inj (hserve.symm.trans (serve_storeOnes hstep)))
  have hunmodified : ∀ w l, ¬Cache64.lineDirty { blank geom with buf0 := some buf } w l := by
    intro w l
    simp [lineDirty, blank, powerOn]
  have hnone : clean geom { blank geom with buf0 := some buf } = none :=
    (clean_of_unmodified hunmodified).trans
      (cleanBuffer_of_wide (hit_eq_some.mpr ⟨rfl, hline⟩) (geom.mod_lt 0) hdirty hwide)
  change final = { blank geom with buf0 := some buf } at hfinal
  rw [hfinal, hnone] at hclean
  cases hclean

/-- A first address of another bank than the first one. -/
theorem bank_two_pow (hbanks : geom.secondaryBanks ≠ 1) :
    ∃ a, a < 2 ^ 64 ∧ a % geom.linesize = 0 ∧ geom.bank a = 1 := by
  obtain ⟨j, hj⟩ := geom.linesize_pow
  obtain ⟨k, hk⟩ := geom.banks_pow
  have hkpos : 0 < k := by
    refine Nat.pos_of_ne_zero fun hzero => hbanks ?_
    rw [hk, hzero, pow_zero]
  have hmask : 1 &&& (2 ^ k - 1) = 1 := by
    rw [Nat.and_two_pow_sub_one_eq_mod]
    exact Nat.mod_eq_of_lt (Nat.one_lt_two_pow hkpos.ne')
  have hlog : Nat.log2 geom.linesize = j := by rw [hj, Nat.log2_two_pow]
  have hj10 : j ≤ 10 := by
    have hle := geom.linesize_le
    rw [hj] at hle
    exact (Nat.pow_le_pow_iff_right (by norm_num : 1 < 2)).mp hle
  have hbits : j ≤ geom.secondaryLinesizeBits ∧ geom.secondaryLinesizeBits < 64 := by
    have hlt := geom.secondaryLinesize_lt
    rw [CacheGeom.secondaryLinesizeBits]
    split
    case isTrue => omega
    case isFalse hge =>
      have hle : geom.linesize ≤ geom.secondaryLinesize.toNat := by omega
      have hne : geom.secondaryLinesize.toNat ≠ 0 := by
        have := geom.linesize_pos
        omega
      constructor
      · rw [Nat.le_log2 hne, ← hj]
        exact hle
      · rw [Nat.log2_lt hne]
        calc geom.secondaryLinesize.toNat < 2 ^ 31 := by omega
          _ < 2 ^ 64 := by norm_num
  refine ⟨2 ^ geom.secondaryLinesizeBits, Nat.pow_lt_pow_right (by norm_num) hbits.2, ?_, ?_⟩
  · rw [hj]
    exact Nat.mod_eq_zero_of_dvd (pow_dvd_pow 2 hbits.1)
  · rw [CacheGeom.bank, if_neg hbanks, Nat.shiftRight_eq_div_pow, Nat.div_self
      (Nat.two_pow_pos _), hk, hmask]

/-- All writes go to the first bank, also those of lines that are read from
another one. -/
theorem not_transparent_of_banks (hbanks : geom.secondaryBanks ≠ 1) :
    ¬Transparent geom := by
  by_cases hwide : geom.useWriteBuffer = true ∧
      geom.secondaryBlocksizeBytes ≠ geom.linesize
  · exact not_transparent_of_wide hwide.1 hwide.2
  intro htransparent
  obtain ⟨a, hlt, haligned, hbank⟩ := bank_two_pow hbanks
  have hline : geom.lineAddr a = a := by rw [geom.lineAddr_eq, haligned, Nat.sub_zero]
  have haligned8 : a % 8 = 0 := by
    have hdvd := dvd_trans (Nat.dvd_of_mod_eq_zero geom.linesize_mod)
      (Nat.dvd_of_mod_eq_zero haligned)
    exact Nat.mod_eq_zero_of_dvd hdvd
  obtain ⟨final, cleaned, hserve, -, hclean, hmemory⟩ := htransparent (fun _ _ => 0)
    (fun _ _ => 0) (fun _ => 0) (fun _ _ => 0) [storeOnes a]
    (by simpa using plain_storeOnes haligned8 hlt)
  have hfinal : ∀ {next : Cache64} {answer : Payload},
      bAccess geom (blank geom) (storeOnes a) = some (next, answer) → final = next := by
    intro next answer hstep
    have hsame := hserve.symm.trans (serve_storeOnes hstep)
    exact congrArg Prod.fst (Option.some.inj hsame)
  have hone : cleaned.secondary 1 a = 1 := by
    have hrun := hmemory a
    rw [hline, hbank] at hrun
    rw [hrun, Machine.run_cons, Machine.run_nil]
    have hflat : ∀ flat, (flatAccess flat (storeOnes a)).1 =
        overlay (patch (storeOnes a)) flat := fun flat => by simp [flatAccess, storeOnes]
    rw [hflat]
    refine Layers.overlay_of_some ?_ _
    rw [patch, storeOnes_address hlt]
    simp [storeOnes, byteEnabled]
  -- what the store and the cleaning write is in bank 0
  have hzero : cleaned.secondary 1 a = 0 := by
    cases huse : geom.useWriteBuffer with
    | false =>
        have hnext := hfinal (bAccess_storeOnes_past huse hlt)
        have hempty : ∀ buf, final.buf0 = some buf → buf.mAddr = none := by
          simp [hnext, sendWrite, blank, powerOn, huse]
        have hunmodified : ∀ w l, ¬final.lineDirty w l := by
          simp [hnext, lineDirty, sendWrite, blank, powerOn]
        rw [clean_of_unmodified hunmodified, cleanBuffer_of_empty hempty,
          Option.some.injEq] at hclean
        rw [← hclean, hnext]
        simp [sendWrite, blank, powerOn]
    | true =>
        have hblock : geom.secondaryBlocksizeBytes = geom.linesize := by
          by_contra hne
          exact hwide ⟨huse, hne⟩
        obtain ⟨buf, hstep, hmAddr, -⟩ := bAccess_storeOnes geom huse haligned8 hlt
        have hnext := hfinal hstep
        have hbuf : final.buf0 = some buf := by rw [hnext]
        have hunmodified : ∀ w l, ¬final.lineDirty w l := by
          simp [hnext, lineDirty, blank, powerOn]
        rw [clean_of_unmodified hunmodified, cleanBuffer_of_full hblock hbuf hmAddr,
          Option.some.injEq] at hclean
        rw [← hclean, hnext]
        simp [sendWrite, emptied, blank, powerOn]
  rw [hzero] at hone
  cases hone

end Overrun

/-- Which caches are transparent: those with one bank of secondary storage, and
with blocks of the size of a line if they have a write buffer. -/
theorem transparent_iff (geom : CacheGeom) :
    Transparent geom ↔ geom.secondaryBanks = 1 ∧
      (geom.useWriteBuffer → geom.secondaryBlocksizeBytes = geom.linesize) := by
  constructor
  · intro htransparent
    constructor
    · by_contra hbanks
      exact not_transparent_of_banks hbanks htransparent
    · intro huse
      by_contra hwide
      exact not_transparent_of_wide huse hwide htransparent
  · rintro ⟨hbanks, hblock⟩
    exact transparent_of_single_block hbanks hblock

/-- One way of eight 64-byte lines, with a write buffer, over a storage of
128-byte blocks. -/
def wideBlocks : CacheGeom where
  bytes := 512
  ways := 1
  linesize := 64
  secondaryWidth := 64
  secondaryBl := 16
  secondaryLinesize := -1
  secondaryBanks := 1
  useWriteBuffer := true
  linesize_pow := ⟨6, rfl⟩
  banks_pow := ⟨0, rfl⟩
  secondaryLinesize_lt := by norm_num
  width_mod := rfl
  width_ge := le_refl 64
  linesize_pos := by norm_num
  linesize_mod := rfl
  linesize_le := by norm_num [maxLinesize]
  ways_pos := by norm_num
  bytes_pos := by norm_num
  bytes_mod := rfl
  blocksize_ge := by norm_num
  blocksize_mod := rfl
  dmapping_log := by decide

/-- A store to such a cache and the cleaning after it read past the end of the
write buffer. -/
theorem not_transparent_wideBlocks : ¬Transparent wideBlocks :=
  not_transparent_of_wide rfl (by decide)

end Cache64

end Prazor.Memory
