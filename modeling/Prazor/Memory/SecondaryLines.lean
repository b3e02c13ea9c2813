import Prazor.Core.TaggedLines
import Prazor.Memory.SecondaryCache

/-!
# The lines of a bank over its memory

Writing a dirty line out and bringing a line in keep the flat memory that a
bank shows, when the blocks of a transfer fit the line.
-/

namespace Prazor.Memory

open Prazor.Tlm

/-- Lines are transferred in whole blocks, and fit the array that a fetch uses. -/
structure BlocksFit (geom : SecondaryGeom) : Prop where
  pos : 0 < geom.secondaryBlocksizeBytes
  dvd : geom.secondaryBlocksizeBytes ∣ geom.linesize
  linesize_le : geom.linesize ≤ maxLinesize

namespace SecondaryCache

variable {geom : SecondaryGeom} {cache : SecondaryCache}

/-! ## Transfers in blocks -/

theorem blocks_eq (hfit : BlocksFit geom) :
    geom.blocks = some ((List.range (geom.linesize / geom.secondaryBlocksizeBytes)).map
      fun k => k * geom.secondaryBlocksizeBytes) := by
  obtain ⟨n, hn⟩ := hfit.dvd
  have hpos := hfit.pos
  have hdiv : (geom.linesize + geom.secondaryBlocksizeBytes - 1) /
      geom.secondaryBlocksizeBytes = geom.linesize / geom.secondaryBlocksizeBytes := by
    rw [hn, Nat.add_sub_assoc (by omega), Nat.mul_add_div hpos,
      Nat.div_eq_of_lt (by omega), Nat.add_zero, Nat.mul_div_cancel_left n hpos]
  rw [SecondaryGeom.blocks, if_neg hpos.ne', hdiv]

theorem blocks_mul (hfit : BlocksFit geom) :
    geom.linesize / geom.secondaryBlocksizeBytes * geom.secondaryBlocksizeBytes =
      geom.linesize :=
  Nat.div_mul_cancel hfit.dvd

/-- The end of a block that is one of the line's. -/
theorem block_end_le (hfit : BlocksFit geom) {k : ℕ}
    (hk : k < geom.linesize / geom.secondaryBlocksizeBytes) :
    k * geom.secondaryBlocksizeBytes + geom.secondaryBlocksizeBytes ≤ geom.linesize := by
  calc k * geom.secondaryBlocksizeBytes + geom.secondaryBlocksizeBytes
      = (k + 1) * geom.secondaryBlocksizeBytes := by ring
    _ ≤ geom.linesize / geom.secondaryBlocksizeBytes * geom.secondaryBlocksizeBytes :=
        Nat.mul_le_mul_right _ hk
    _ = geom.linesize := blocks_mul hfit

/-- The blocks that a fetch has read so far. -/
theorem foldlM_fetchBlock (hfit : BlocksFit geom) (cache : SecondaryCache) (line : ℕ)
    {n : ℕ} (hn : n ≤ geom.linesize / geom.secondaryBlocksizeBytes) :
    ∃ cline, ((List.range n).map fun k => k * geom.secondaryBlocksizeBytes).foldlM
        (fetchBlock geom cache line) (fun _ => 0) = some cline ∧
      ∀ i, i < n * geom.secondaryBlocksizeBytes →
        cline i = cache.main (geom.realAddr line + i) := by
  induction n with
  | zero => exact ⟨_, rfl, fun i hi => by omega⟩
  | succ n ih =>
      obtain ⟨cline, hfold, hcline⟩ := ih (by omega)
      have hend := le_trans (block_end_le hfit hn) hfit.linesize_le
      obtain ⟨next, hnext⟩ : ∃ next, fetchBlock geom cache line cline
          (n * geom.secondaryBlocksizeBytes) = some next := ⟨_, if_pos hend⟩
      refine ⟨next, ?_, fun i hi => ?_⟩
      · rw [List.range_succ, List.map_append, List.foldlM_append, hfold]
        simpa using hnext
      · rw [fetchBlock, if_pos hend, Option.some.injEq] at hnext
        rw [Nat.succ_mul] at hi
        rw [← hnext]
        beta_reduce
        by_cases hin : n * geom.secondaryBlocksizeBytes ≤ i
        · rw [if_pos ⟨hin, hi⟩, Nat.add_assoc, Nat.add_sub_cancel' hin]
        · rw [if_neg fun h => hin h.1]
          exact hcline i (by omega)

theorem mainMemoryLookup_eq (hfit : BlocksFit geom) (cache : SecondaryCache)
    (line : ℕ) :
    ∃ cline, mainMemoryLookup geom cache line = some cline ∧
      ∀ i, i < geom.linesize → cline i = cache.main (geom.realAddr line + i) := by
  obtain ⟨cline, hfold, hcline⟩ := foldlM_fetchBlock hfit cache line le_rfl
  rw [blocks_mul hfit] at hcline
  exact ⟨cline, by rw [mainMemoryLookup, blocks_eq hfit]; exact hfold, hcline⟩

/-- Writing consecutive blocks is writing all of them. -/
theorem stored_append (memory : ℕ → Byte) (address length block : ℕ) (data : Buffer) :
    stored (stored memory address length (fun _ => true) data) (address + length) block
        (fun _ => true) (fun i => data (length + i)) =
      stored memory address (length + block) (fun _ => true) data := by
  funext a
  unfold stored
  by_cases hin : address + length ≤ a
  · have hsub : length + (a - (address + length)) = a - address := by omega
    by_cases hend : a < address + length + block
    · rw [if_pos ⟨hin, hend, rfl⟩, if_pos ⟨by omega, by omega, rfl⟩]
      exact congrArg data hsub
    · rw [if_neg (by omega), if_neg (by omega), if_neg (by omega)]
  · by_cases hlt : address ≤ a ∧ a < address + length
    · rw [if_neg (by omega), if_pos ⟨hlt.1, hlt.2, rfl⟩, if_pos ⟨hlt.1, by omega, rfl⟩]
    · rw [if_neg (by omega), if_neg (by omega), if_neg (by omega)]

/-- The blocks that `clear` has written so far. -/
theorem foldlM_sendBlock (hfit : BlocksFit geom) (cache : SecondaryCache) (w : ℕ)
    {d : ℕ} (hd : d < geom.dmapping) (laddr : ℕ) {n : ℕ}
    (hn : n ≤ geom.linesize / geom.secondaryBlocksizeBytes) :
    ((List.range n).map fun k => k * geom.secondaryBlocksizeBytes).foldlM
        (sendBlock geom w d laddr) cache =
      some { cache with
        main := stored cache.main (geom.realAddr laddr) (n * geom.secondaryBlocksizeBytes)
          (fun _ => true) fun i => (cache.cont w).data (d * geom.linesize + i) } := by
  induction n with
  | zero =>
      have hsame : stored cache.main (geom.realAddr laddr)
          (0 * geom.secondaryBlocksizeBytes) (fun _ => true)
          (fun i => (cache.cont w).data (d * geom.linesize + i)) = cache.main := by
        funext a
        exact if_neg (by omega)
      rw [hsame]
      rfl
  | succ n ih =>
      have hend := block_end_le hfit hn
      have hline := line_end_le geom.linesize hd
      have happend := stored_append cache.main (geom.realAddr laddr)
        (n * geom.secondaryBlocksizeBytes) geom.secondaryBlocksizeBytes
        (fun i => (cache.cont w).data (d * geom.linesize + i))
      rw [List.range_succ, List.map_append, List.foldlM_append, ih (by omega)]
      rw [Nat.succ_mul, ← happend]
      have hroom : d * geom.linesize + (n * geom.secondaryBlocksizeBytes +
          geom.secondaryBlocksizeBytes) ≤ geom.dmapping * geom.linesize := by omega
      simp [sendBlock, hroom, Nat.add_assoc]

/-! ## The lines as holders -/

def shape (geom : SecondaryGeom) : Shape ℕ ℕ where
  ways := geom.ways
  lineOf := geom.lineOf
  offset real := real % geom.linesize
  index := geom.dmap

def lines (geom : SecondaryGeom) (cache : SecondaryCache) : TaggedLines ℕ Byte where
  tag w d :=
    if (cache.cont w).status d = .invalid then none else some ((cache.cont w).tags d)
  dirty w d := (cache.cont w).status d = .dirty
  value w d := lineBytes geom.linesize (cache.cont w).data d

/-- The lines above the memory of the bank. -/
def layers (geom : SecondaryGeom) (cache : SecondaryCache) :
    Layers ((ℕ × ℕ) ⊕ Empty) ℕ Byte :=
  (lines geom cache).layers (shape geom) (fun other _ => nomatch other) cache.main

/-- Lines of the bank are in their places. -/
structure Placed (geom : SecondaryGeom) (cache : SecondaryCache) : Prop where
  lru_lt : cache.lru < geom.ways
  lines : (lines geom cache).Placed (shape geom)
  inBank : ∀ w d line, w < geom.ways → (cache.lines geom).tag w d = some line →
    ∃ real, line = geom.lineOf real

/-- What the users of the bank see, and the order in its places. -/
structure Shows (geom : SecondaryGeom) (cache : SecondaryCache) (flat : ℕ → Byte) :
    Prop where
  placed : Placed geom cache
  agrees : (layers geom cache).Agrees flat

/-- The lines of a way. -/
def lineWay (linesize : ℕ) (way : SecondaryWay) : TaggedLines.Way LineState ℕ Byte where
  state := way.status
  tag := way.tags
  value := lineBytes linesize way.data

theorem lines_eq (geom : SecondaryGeom) (cache : SecondaryCache) :
    lines geom cache =
      TaggedLines.ofWays .invalid (· = .dirty) (lineWay geom.linesize ∘ cache.cont) :=
  rfl

theorem present_iff {w d line : ℕ} :
    cache.present w d line = true ↔ (lines geom cache).tag w d = some line := by
  rw [lines_eq, TaggedLines.tag_ofWays, present, decide_eq_true_iff]
  rfl

/-- The change of one line of a way is the change of one place. -/
theorem lines_setWay {w d : ℕ} {way : SecondaryWay}
    (hchanged : (lineWay geom.linesize (cache.cont w)).ChangedAt d
      (lineWay geom.linesize way)) :
    lines geom (cache.setWay w way) =
      (lines geom cache).setLine w d
        (if way.status d = .invalid then none else some (way.tags d))
        (way.status d = .dirty) (lineBytes geom.linesize way.data d) := by
  rw [lines_eq, setWay, Function.comp_update]
  exact TaggedLines.ofWays_update hchanged

theorem lines_setStatus_invalid (w d : ℕ) :
    lines geom (cache.setStatus w d .invalid) =
      (lines geom cache).setLine w d none False
        (lineBytes geom.linesize (cache.cont w).data d) := by
  have hchanged : (lineWay geom.linesize (cache.cont w)).ChangedAt d
      (lineWay geom.linesize
        { cache.cont w with
          status := Function.update (cache.cont w).status d .invalid }) :=
    ⟨fun _ hd => Function.update_of_ne hd .., fun _ _ => rfl, fun _ _ => rfl⟩
  exact (lines_setWay hchanged).trans (by simp)

theorem lines_withLine (geom : SecondaryGeom) (cache : SecondaryCache) (w addr d : ℕ)
    (cline : Buffer) :
    lines geom (cache.setWay w (withLine geom (cache.cont w) addr d cline)) =
      (lines geom cache).setLine w d (some addr) False
        (lineBytes geom.linesize (copyLine geom.linesize (cache.cont w).data d cline) d) := by
  have hchanged : (lineWay geom.linesize (cache.cont w)).ChangedAt d
      (lineWay geom.linesize (withLine geom (cache.cont w) addr d cline)) :=
    { state := fun _ hd => Function.update_of_ne hd ..
      tag := fun _ hd => Function.update_of_ne hd ..
      value := fun _ hd => lineBytes_congr hd fun _ hj =>
        copyLine_of_outside (cache.cont w).data cline hj }
  rw [lines_setWay hchanged]
  simp [withLine]

/-! ## Writing a line out -/

section Clear

variable {flat : ℕ → Byte} {w d : ℕ}

/-- The bytes that `clear` sends are those the place has. -/
theorem sentPatch_tag (hplaced : Placed geom cache) (hw : w < geom.ways)
    (hvalid : (cache.cont w).status d ≠ .invalid) :
    sentPatch (geom.realAddr ((cache.cont w).tags d)) geom.linesize (fun _ => true)
        (fun i => (cache.cont w).data (d * geom.linesize + i)) =
      (lines geom cache).held (shape geom) (w, d) := by
  have htag : (lines geom cache).tag w d = some ((cache.cont w).tags d) := if_neg hvalid
  have hindex := hplaced.lines.index w d _ hw htag
  obtain ⟨base, hbase⟩ := hplaced.inBank w d _ hw htag
  funext real
  rw [TaggedLines.held, htag]
  by_cases hline : geom.lineOf real = (cache.cont w).tags d
  · have hrange := (geom.lineOf_iff base real).mp (hline.trans hbase)
    have hsub : real - geom.realAddr (geom.lineOf base) = real % geom.linesize := by
      rw [← hbase, ← hline, geom.realAddr_lineOf]
      have hle := Nat.mod_le real geom.linesize
      omega
    have hcond : w < (shape geom).ways ∧
        (shape geom).index ((shape geom).lineOf real) = d ∧
        some ((cache.cont w).tags d) = some ((shape geom).lineOf real) :=
      ⟨hw, by rw [← hindex, ← hline]; rfl, by rw [← hline]; rfl⟩
    rw [if_pos hcond, sentPatch, hbase, hsub, if_pos ⟨hrange.1, hrange.2, rfl⟩]
    exact congrArg some (lineBytes_of_lt (geom.mod_lt real) _ _).symm
  · rw [if_neg (fun h => hline (Option.some.inj h.2.2).symm), sentPatch, hbase, if_neg]
    rintro ⟨hle, hlt, -⟩
    exact hline (((geom.lineOf_iff base real).mpr ⟨hle, hlt⟩).trans hbase.symm)

theorem clear_of_clean (hclean : (cache.cont w).status d ≠ .dirty) (addr : Option ℕ) :
    clear geom cache w d addr = some (cache, []) :=
  if_pos hclean

theorem clear_of_dirty (hfit : BlocksFit geom) (hd : d < geom.dmapping)
    (hdirty : (cache.cont w).status d = .dirty) (addr : Option ℕ) :
    clear geom cache w d addr =
      some (({ cache with
          directory := (clearDirectory geom cache w d addr).1
          main := stored cache.main (geom.realAddr ((cache.cont w).tags d)) geom.linesize
            (fun _ => true) fun i => (cache.cont w).data (d * geom.linesize + i) }
        : SecondaryCache).setStatus w d .invalid,
        (clearDirectory geom cache w d addr).2) := by
  have hblocks := foldlM_sendBlock hfit
    { cache with directory := (clearDirectory geom cache w d addr).1 } w hd
    ((cache.cont w).tags d) le_rfl
  rw [blocks_mul hfit] at hblocks
  rw [clear, if_neg (not_not.mpr hdirty), blocks_eq hfit]
  simp only [Option.bind_some, hblocks, Option.map_some]

/-- What `clear` changes beside the memory and the directory. -/
structure Cleared (geom : SecondaryGeom) (cache next : SecondaryCache) (w d : ℕ) :
    Prop where
  lru : next.lru = cache.lru
  clean : (next.cont w).status d ≠ .dirty
  same : ∀ w' d', ¬(w' = w ∧ d' = d) →
    (lines geom next).tag w' d' = (lines geom cache).tag w' d' ∧
      ((next.cont w').status d' = .dirty ↔ (cache.cont w').status d' = .dirty)

/-- A dirty line is written out and dropped. -/
theorem clear_spec (hfit : BlocksFit geom) (hshows : Shows geom cache flat)
    (hw : w < geom.ways) (hd : d < geom.dmapping) (addr : Option ℕ) :
    ∃ next messages, clear geom cache w d addr = some (next, messages) ∧
      Shows geom next flat ∧ Cleared geom cache next w d := by
  obtain ⟨hplaced, hagrees⟩ := hshows
  by_cases hdirty : (cache.cont w).status d = .dirty
  swap
  · exact ⟨cache, [], clear_of_clean hdirty addr, ⟨hplaced, hagrees⟩,
      rfl, hdirty, fun _ _ _ => ⟨rfl, Iff.rfl⟩⟩
  have hvalid : (cache.cont w).status d ≠ .invalid := by
    rw [hdirty]
    decide
  let sent : SecondaryCache :=
    { cache with
      directory := (clearDirectory geom cache w d addr).1
      main := stored cache.main (geom.realAddr ((cache.cont w).tags d)) geom.linesize
        (fun _ => true) fun i => (cache.cont w).data (d * geom.linesize + i) }
  have hlines : lines geom (sent.setStatus w d .invalid) =
      (lines geom cache).setLine w d none False
        (lineBytes geom.linesize (cache.cont w).data d) := by
    rw [lines_setStatus_invalid]
    rfl
  refine ⟨_, _, clear_of_dirty hfit hd hdirty addr, ⟨⟨hplaced.lru_lt, ?_, ?_⟩, ?_⟩,
    ⟨rfl, ?_, fun w' d' hplace => ?_⟩⟩
  · change (lines geom (sent.setStatus w d .invalid)).Placed (shape geom)
    rw [hlines]
    exact hplaced.lines.drop w d _ _
  · intro w' d' line hw' htag
    change (lines geom (sent.setStatus w d .invalid)).tag w' d' = some line at htag
    rw [hlines] at htag
    by_cases hplace : w' = w ∧ d' = d
    · rw [hplace.1, hplace.2, TaggedLines.tag_setLine_self] at htag
      cases htag
    · rw [TaggedLines.tag_setLine_of_ne hplace] at htag
      exact hplaced.inBank w' d' line hw' htag
  · have hwritten := hagrees.writeBack (.inl (w, d))
    change (layers geom (sent.setStatus w d .invalid)).Agrees flat
    rw [layers, hlines]
    have hmemory : sent.main = overlay ((lines geom cache).held (shape geom) (w, d))
        cache.main := by
      rw [← sentPatch_tag hplaced hw hvalid, ← stored_eq_overlay]
    change (TaggedLines.layers _ _ _ sent.main).Agrees flat
    rw [hmemory]
    refine TaggedLines.agrees_drop hwritten ?_ _ _
    intro _ real value hheld
    exact Layers.overlay_of_some hheld _
  · simp [setStatus, setWay]
  · change (lines geom (sent.setStatus w d .invalid)).tag w' d' = _ ∧
      ((lines geom (sent.setStatus w d .invalid)).dirty w' d' ↔ _)
    rw [hlines, TaggedLines.tag_setLine_of_ne hplace, TaggedLines.dirty_setLine_of_ne hplace]
    exact ⟨rfl, Iff.rfl⟩

end Clear

/-! ## Bringing a line in -/

section Lookup

variable {flat : ℕ → Byte} {w line : ℕ}

/-- What `insert` does with the victim is what `clear` does. -/
theorem evict_spec (hfit : BlocksFit geom) (hshows : Shows geom cache flat)
    (hw : w < geom.ways) (habsent : (lines geom cache).Absent (shape geom) line)
    (fullAddr : ℕ) :
    ∃ next messages,
      evict geom cache w line (geom.dmap line) fullAddr = some (next, messages) ∧
      Shows geom next flat ∧ Cleared geom cache next w (geom.dmap line) := by
  obtain ⟨next, messages, hclear, hnext, hcleared⟩ :=
    clear_spec hfit hshows hw (geom.dmap_lt line) (some fullAddr)
  refine ⟨next, messages, ?_, hnext, hcleared⟩
  have htag : (cache.cont w).status (geom.dmap line) ≠ .invalid →
      line ≠ (cache.cont w).tags (geom.dmap line) := fun hvalid heq =>
    habsent w hw ((if_neg hvalid).trans (congrArg some heq.symm))
  unfold evict
  cases hstatus : (cache.cont w).status (geom.dmap line)
  case dirty => exact (if_pos (htag (by simp [hstatus]))).trans hclear
  all_goals
    rw [clear_of_clean (by simp [hstatus])] at hclear
    exact hclear

/-- A line of the bank that takes a place leaves the others in theirs. -/
theorem Placed.bringIn (hplaced : Placed geom cache) {next : SecondaryCache} {d : ℕ}
    (hline : ∃ real, line = geom.lineOf real) (hd : geom.dmap line = d)
    (habsent : ∀ w', w' < geom.ways → w' ≠ w →
      (SecondaryCache.lines geom cache).tag w' d ≠ some line)
    {dirty : Prop} {value : ℕ → Byte}
    (hlines : SecondaryCache.lines geom next =
      (SecondaryCache.lines geom cache).setLine w d (some line) dirty value)
    (hlru : next.lru < geom.ways) :
    Placed geom next where
  lru_lt := hlru
  lines := by
    subst hd
    rw [hlines]
    exact hplaced.lines.bringIn habsent _ _
  inBank w' d' line' hw' htag := by
    rw [hlines] at htag
    by_cases hplace : w' = w ∧ d' = d
    · rw [hplace.1, hplace.2, TaggedLines.tag_setLine_self, Option.some.injEq] at htag
      exact htag ▸ hline
    · rw [TaggedLines.tag_setLine_of_ne hplace] at htag
      exact hplaced.inBank w' d' line' hw' htag

/-- Where the victim has been written out, a fetched line takes its place. -/
theorem insert_spec (hfit : BlocksFit geom) (hshows : Shows geom cache flat)
    (hw : w < geom.ways) {real : ℕ}
    (habsent : (lines geom cache).Absent (shape geom) (geom.lineOf real))
    {cline : Buffer} (hcline : ∀ i, i < geom.linesize →
      cline i = flat (geom.realAddr (geom.lineOf real) + i)) (fullAddr : ℕ) :
    ∃ next messages, insert geom cache w (geom.lineOf real)
        (geom.dmap (geom.lineOf real)) cline fullAddr = some (next, messages) ∧
      Shows geom next flat ∧
      next.present w (geom.dmap (geom.lineOf real)) (geom.lineOf real) = true := by
  obtain ⟨evicted, messages, hevict, hshows', hcleared⟩ :=
    evict_spec hfit hshows hw habsent fullAddr
  have hlines := lines_withLine geom evicted w (geom.lineOf real)
    (geom.dmap (geom.lineOf real)) cline
  refine ⟨_, messages, ?_, ⟨hshows'.placed.bringIn ⟨real, rfl⟩ rfl
    (fun w' hw' hne htag => ?_) hlines hshows'.placed.lru_lt, ?_⟩, ?_⟩
  · rw [insert, hevict, Option.bind_some]
    exact if_pos (line_end_le geom.linesize (geom.dmap_lt _))
  · rw [(hcleared.same w' _ fun h => hne h.1).1] at htag
    exact habsent w' hw' htag
  · rw [layers, hlines]
    refine TaggedLines.agrees_bringIn hshows'.agrees
      (fun hdirty => absurd hdirty hcleared.clean) (fun real' hline => ?_) _
    change lineBytes _ (copyLine _ _ _ cline) _ (real' % geom.linesize) = flat real'
    have hbase := geom.realAddr_lineOf real'
    have hsplit := Nat.mod_le real' geom.linesize
    rw [lineBytes_copyLine (geom.mod_lt real'), hcline _ (geom.mod_lt real')]
    rw [show geom.lineOf real = geom.lineOf real' from hline.symm, hbase,
      Nat.sub_add_cancel hsplit]
  · rw [present_iff, hlines, TaggedLines.tag_setLine_self]

/-- The search through the ways finds the line or shows that it is not there. -/
theorem find_ways (geom : SecondaryGeom) (cache : SecondaryCache) (line : ℕ) :
    (∃ w, findWay geom cache line (geom.dmap line) = some w ∧ w < geom.ways ∧
        cache.present w (geom.dmap line) line = true) ∨
      (findWay geom cache line (geom.dmap line) = none ∧
        (lines geom cache).Absent (shape geom) line) := by
  cases hfind : findWay geom cache line (geom.dmap line) with
  | none =>
      refine Or.inr ⟨rfl, fun w hw htag => ?_⟩
      exact List.find?_eq_none.mp hfind w (List.mem_range.mpr hw) (present_iff.mpr htag)
  | some w =>
      exact Or.inl ⟨w, rfl, List.mem_range.mp (List.mem_of_find?_eq_some hfind),
        by simpa using List.find?_some hfind⟩

/-- A line that is in no way is up to date in the memory. -/
theorem main_of_absent (hshows : Shows geom cache flat) (real : ℕ)
    (habsent : (lines geom cache).Absent (shape geom) (geom.lineOf real)) {i : ℕ}
    (hi : i < geom.linesize) :
    cache.main (geom.realAddr (geom.lineOf real) + i) =
      flat (geom.realAddr (geom.lineOf real) + i) := by
  have hline := (geom.lineOf_iff real (geom.realAddr (geom.lineOf real) + i)).mpr
    ⟨by omega, by omega⟩
  refine TaggedLines.memory_of_absent hshows.agrees ?_ fun other => other.elim
  change (lines geom cache).Absent (shape geom) (geom.lineOf _)
  rw [hline]
  exact habsent

theorem nextLru_lt (hlt : cache.lru < geom.ways) :
    nextLru geom cache.lru < geom.ways := by
  unfold nextLru
  split <;> omega

/-- The round-robin pointer is no part of what the users see. -/
theorem Shows.setLru (hshows : Shows geom cache flat) {lru : ℕ} (hlt : lru < geom.ways) :
    Shows geom { cache with lru := lru } flat :=
  ⟨⟨hlt, hshows.placed.lines, hshows.placed.inBank⟩, hshows.agrees⟩

/-- A serviced lookup ends with the line in a way. -/
theorem lookup_spec (hfit : BlocksFit geom) (hshows : Shows geom cache flat) (real : ℕ)
    (fullAddr : ℕ) :
    ∃ next w messages, lookup geom cache (geom.lineOf real)
        (geom.dmap (geom.lineOf real)) fullAddr = some (next, w, messages) ∧
      w < geom.ways ∧ Shows geom next flat ∧
      next.present w (geom.dmap (geom.lineOf real)) (geom.lineOf real) = true := by
  rcases find_ways geom cache (geom.lineOf real) with
    ⟨w, hfind, hw, hpresent⟩ | ⟨hfind, habsent⟩
  · exact ⟨cache, w, [], by rw [lookup, hfind], hw, hshows, hpresent⟩
  · have hlru := hshows.placed.lru_lt
    obtain ⟨cline, hfetch, hcline⟩ := mainMemoryLookup_eq hfit cache (geom.lineOf real)
    obtain ⟨next, messages, hinsert, hnext, hpresent⟩ :=
      insert_spec hfit (hshows.setLru (nextLru_lt hlru)) hlru habsent
        (fun i hi => (hcline i hi).trans (main_of_absent hshows real habsent hi)) fullAddr
    refine ⟨next, cache.lru, messages, ?_, hlru, hnext, hpresent⟩
    rw [lookup, hfind]
    simp only [hfetch, Option.bind_some, hinsert, hpresent, if_true]

end Lookup

end SecondaryCache

end Prazor.Memory
