import Prazor.Core.TaggedLines
import Prazor.Memory.Cache64

/-!
# The lines of a cache over its storage

The lines in the ways and the dirty bytes of the write buffer are holders above
the secondary storage.  Writing a line out and bringing one in are operations on
holders that keep the flat memory, as long as the storage is one bank.
-/

namespace Prazor.Memory

open Prazor.Tlm

namespace Cache64

variable {geom : CacheGeom} {cache : Cache64}

/-! ## Lines as ranges of addresses -/

theorem mem_line_iff {line : ℕ} (hline : line % geom.linesize = 0) (a : ℕ) :
    (line ≤ a ∧ a < line + geom.linesize) ↔ geom.lineAddr a = line := by
  constructor
  · rintro ⟨hle, hlt⟩
    obtain ⟨i, rfl⟩ := Nat.exists_eq_add_of_le hle
    exact geom.lineAddr_of_line hline (by omega)
  · intro haddr
    have hsplit := geom.lineAddr_add_mod a
    have hlt := geom.mod_lt a
    omega

theorem sub_line {line a : ℕ} (hline : geom.lineAddr a = line) :
    a - line = a % geom.linesize := by
  have hsplit := geom.lineAddr_add_mod a
  omega

/-! ## What the pieces of an access do -/

/-- The line has data that the secondary storage may lack. -/
def lineDirty (cache : Cache64) (w dmap : ℕ) : Prop :=
  (cache.cont w).status dmap = .modified ∨ (cache.cont w).status dmap = .owned

theorem cleanWay_of_clean {w dmap : ℕ} (hclean : ¬cache.lineDirty w dmap) :
    cleanWay geom cache w dmap = some cache := by
  rw [lineDirty, not_or] at hclean
  rw [cleanWay, if_pos hclean]

theorem cleanWay_of_dirty {w dmap : ℕ} (hdirty : cache.lineDirty w dmap)
    (hdmap : dmap < geom.dmapping) :
    cleanWay geom cache w dmap =
      some ((cache.setStatus w dmap .invalid).sendWrite ((cache.cont w).tags dmap)
        geom.linesize (fun _ => true)
        fun i => (cache.cont w).data (dmap * geom.linesize + i)) := by
  have hdirty' : ¬((cache.cont w).status dmap ≠ .modified ∧
      (cache.cont w).status dmap ≠ .owned) := by
    rw [lineDirty] at hdirty
    tauto
  rw [cleanWay, if_neg hdirty', geom.blocks_eq, geom.transferLength_eq,
    List.foldlM_cons, Nat.add_zero, if_pos (line_end_le geom.linesize hdmap)]
  simp [setStatus, setWay]

theorem cleanBuffer_of_empty (hempty : ∀ buf, cache.buf0 = some buf → buf.mAddr = none) :
    cleanBuffer geom cache = some cache := by
  unfold cleanBuffer
  cases hbuf : cache.buf0 with
  | none => rfl
  | some buf => simp [hempty buf hbuf]

/-- The write buffer after it has been written out. -/
def emptied (cache : Cache64) (buf : WriteBuffer) : Cache64 :=
  { cache with buf0 := some { buf with mAddr := none } }

theorem cleanBuffer_of_full {buf : WriteBuffer} {line : ℕ}
    (hblock : geom.secondaryBlocksizeBytes = geom.linesize)
    (hbuf : cache.buf0 = some buf) (hline : buf.mAddr = some line) :
    cleanBuffer geom cache =
      some ((cache.emptied buf).sendWrite line geom.linesize buf.dirty buf.cline) := by
  have hcopy : copyBytes geom.linesize buf.cline geom.linesize 0 maxLinesize =
      some (Bytes.memcpy geom.linesize buf.cline fun _ => 0) := by
    rw [copyBytes, if_pos ⟨by omega, geom.linesize_le⟩]
    simp
  have hdata : ∀ i, i < geom.linesize →
      Bytes.memcpy geom.linesize buf.cline (fun _ => 0) i = buf.cline i :=
    fun i hi => Bytes.memcpy_of_lt hi _ _
  simp only [cleanBuffer, hbuf, hline, geom.blocks_eq, List.foldlM_cons,
    List.foldlM_nil, geom.transferLength_eq, hblock, hcopy, Nat.zero_add,
    Option.map_some, Nat.add_zero]
  by_cases hany : (List.range geom.linesize).any fun i => buf.dirty i
  · simp only [hany, if_true, sendWrite, emptied]
    rw [stored_congr hdata]
    rfl
  · have hnone : ∀ i, i < geom.linesize → buf.dirty i = false := by
      simpa using hany
    simp [hany, sendWrite, emptied, stored_of_disabled hnone]

theorem secondaryLookup_eq (geom : CacheGeom) (cache : Cache64) (line : ℕ) :
    ∃ cline, secondaryLookup geom cache line = some cline ∧
      ∀ i, i < geom.linesize → cline i = cache.secondary (geom.bank line) (line + i) := by
  refine ⟨fun i => if i < geom.linesize then
    cache.secondary (geom.bank line) (line + i) else 0, ?_, fun i hi => if_pos hi⟩
  rw [secondaryLookup, geom.blocks_eq, geom.transferLength_eq, List.foldlM_cons,
    Nat.zero_add, if_pos geom.linesize_le]
  simp

/-! ## The holders above the secondary storage -/

def shape (geom : CacheGeom) : Shape ℕ ℕ where
  ways := geom.ways
  lineOf := geom.lineAddr
  offset a := a % geom.linesize
  index := geom.dmap

/-- The lines of the ways, by tag. -/
def lines (geom : CacheGeom) (cache : Cache64) : TaggedLines ℕ Byte where
  tag w d :=
    if (cache.cont w).status d = .invalid then none else some ((cache.cont w).tags d)
  dirty w d := cache.lineDirty w d
  value w d := lineBytes geom.linesize (cache.cont w).data d

/-- The byte of an address that the write buffer has. -/
def bufferedByte (geom : CacheGeom) (cache : Cache64) (a : ℕ) : Option Byte :=
  (cache.hit (geom.lineAddr a)).bind fun buf =>
    if buf.dirty (a % geom.linesize) then some (buf.cline (a % geom.linesize)) else none

/-- The lines and the write buffer, over the bank that each line is read from. -/
def layers (geom : CacheGeom) (cache : Cache64) : Layers ((ℕ × ℕ) ⊕ Unit) ℕ Byte :=
  (lines geom cache).layers (shape geom) (fun _ => bufferedByte geom cache) fun a =>
    cache.secondary (geom.bank (geom.lineAddr a)) a

/-- Each line is in the place of its address, in one way at most and not both
in a way and in the write buffer. -/
structure Placed (geom : CacheGeom) (cache : Cache64) : Prop where
  built : cache.buf0.isSome = geom.useWriteBuffer
  lru_lt : cache.lru < geom.ways
  lines : (lines geom cache).Placed (shape geom)
  aligned : ∀ w d line, w < geom.ways → (cache.lines geom).tag w d = some line →
    line % geom.linesize = 0
  buffer : ∀ buf line, cache.hit line = some buf →
    line % geom.linesize = 0 ∧ (cache.lines geom).Absent (shape geom) line

/-- What the users of the cache see, and the order in its places. -/
structure Shows (geom : CacheGeom) (cache : Cache64) (flat : ℕ → Byte) : Prop where
  placed : Placed geom cache
  agrees : (layers geom cache).Agrees flat

/-- The lines of a way. -/
def lineWay (linesize : ℕ) (way : Cacheway) : TaggedLines.Way Mesi ℕ Byte where
  state := way.status
  tag := way.tags
  value := lineBytes linesize way.data

theorem lines_eq (geom : CacheGeom) (cache : Cache64) :
    lines geom cache =
      TaggedLines.ofWays .invalid (fun status => status = .modified ∨ status = .owned)
        (lineWay geom.linesize ∘ cache.cont) :=
  rfl

theorem present_iff {w d line : ℕ} :
    cache.present w d line = true ↔ (lines geom cache).tag w d = some line := by
  rw [lines_eq, TaggedLines.tag_ofWays, present, decide_eq_true_iff]
  rfl

theorem hit_eq_some {line : ℕ} {buf : WriteBuffer} :
    cache.hit line = some buf ↔ cache.buf0 = some buf ∧ buf.mAddr = some line := by
  simp [hit, Option.filter_eq_some_iff]

theorem hit_eq_none {line : ℕ} :
    cache.hit line = none ↔ ∀ buf, cache.buf0 = some buf → buf.mAddr ≠ some line := by
  simp [hit, Option.filter_eq_none_iff]

theorem bufferedByte_of_miss {a : ℕ} (hmiss : cache.hit (geom.lineAddr a) = none) :
    bufferedByte geom cache a = none := by
  rw [bufferedByte, hmiss, Option.bind_none]

/-! ## Changing one way -/

/-- The change of one line of a way is the change of one place. -/
theorem lines_setWay {w d : ℕ} {way : Cacheway}
    (hchanged : (lineWay geom.linesize (cache.cont w)).ChangedAt d
      (lineWay geom.linesize way)) :
    lines geom (cache.setWay w way) =
      (lines geom cache).setLine w d
        (if way.status d = .invalid then none else some (way.tags d))
        (way.status d = .modified ∨ way.status d = .owned)
        (lineBytes geom.linesize way.data d) := by
  rw [lines_eq, setWay, Function.comp_update]
  exact TaggedLines.ofWays_update hchanged

theorem changedAt_withLine (way : Cacheway) (addr d : ℕ) (cline : Buffer)
    (newState : Mesi) :
    (lineWay geom.linesize way).ChangedAt d
      (lineWay geom.linesize (withLine geom way addr d cline newState)) where
  state _ hd := Function.update_of_ne hd ..
  tag _ hd := Function.update_of_ne hd ..
  value _ hd := lineBytes_congr hd fun _ hj => copyLine_of_outside way.data cline hj

/-- `Status[dmap] = invalid` drops the line. -/
theorem lines_setStatus_invalid (w d : ℕ) :
    lines geom (cache.setStatus w d .invalid) =
      (lines geom cache).setLine w d none False
        (lineBytes geom.linesize (cache.cont w).data d) := by
  have hchanged : (lineWay geom.linesize (cache.cont w)).ChangedAt d
      (lineWay geom.linesize
        { cache.cont w with
          status := Function.update (cache.cont w).status d .invalid }) :=
    ⟨fun _ hd => Function.update_of_ne hd .., fun _ _ => rfl, fun _ _ => rfl⟩
  exact (lines_setWay hchanged).trans (by simp)

/-- `insert` as shared puts a line that is not dirty in the place. -/
theorem lines_withLine (geom : CacheGeom) (cache : Cache64) (w addr d : ℕ)
    (cline : Buffer) :
    lines geom (cache.setWay w (withLine geom (cache.cont w) addr d cline .shared)) =
      (lines geom cache).setLine w d (some addr) False
        (lineBytes geom.linesize (copyLine geom.linesize (cache.cont w).data d cline) d) := by
  rw [lines_setWay (changedAt_withLine _ _ _ _ _)]
  simp [withLine]

/-! ## Writing to the secondary storage -/

theorem layers_sendWrite (hbanks : geom.secondaryBanks = 1) (address length : ℕ)
    (enabled : ℕ → Bool) (data : Buffer) :
    layers geom (cache.sendWrite address length enabled data) =
      (layers geom cache).storeBelow (sentPatch address length enabled data) := by
  apply Layers.ext
  · rfl
  · rfl
  · funext a
    simp only [layers, TaggedLines.layers, Layers.storeBelow, sendWrite,
      geom.bank_of_single hbanks, Function.update_self, overlay, stored, sentPatch]
    split <;> rfl

theorem sentPatch_line {line : ℕ} (hline : line % geom.linesize = 0)
    (enabled : ℕ → Bool) (data : Buffer) (a : ℕ) :
    sentPatch line geom.linesize enabled data a =
      if geom.lineAddr a = line ∧ enabled (a % geom.linesize) then
        some (data (a % geom.linesize))
      else none := by
  by_cases haddr : geom.lineAddr a = line
  · obtain ⟨hle, hlt⟩ := (mem_line_iff hline a).mpr haddr
    simp only [sentPatch, sub_line haddr, hle, hlt, haddr, true_and]
  · rw [sentPatch, if_neg (fun h => haddr ((mem_line_iff hline a).mp ⟨h.1, h.2.1⟩)),
      if_neg (fun h => haddr h.1)]

theorem Placed.sendWrite (hplaced : Placed geom cache) (address length : ℕ)
    (enabled : ℕ → Bool) (data : Buffer) :
    Placed geom (cache.sendWrite address length enabled data) :=
  ⟨hplaced.built, hplaced.lru_lt, hplaced.lines, hplaced.aligned, hplaced.buffer⟩

section CleanWay

variable {flat : ℕ → Byte} {w d : ℕ}

theorem Placed.drop (hplaced : Placed geom cache) (w d : ℕ) :
    Placed geom (cache.setStatus w d .invalid) where
  built := hplaced.built
  lru_lt := hplaced.lru_lt
  lines := by
    rw [lines_setStatus_invalid]
    exact hplaced.lines.drop w d _ _
  aligned w' d' line hw htag := by
    rw [lines_setStatus_invalid] at htag
    by_cases hplace : w' = w ∧ d' = d
    · rw [hplace.1, hplace.2, TaggedLines.tag_setLine_self] at htag
      cases htag
    · rw [TaggedLines.tag_setLine_of_ne hplace] at htag
      exact hplaced.aligned w' d' line hw htag
  buffer buf line hhit := by
    obtain ⟨haligned, habsent⟩ := hplaced.buffer buf line hhit
    refine ⟨haligned, fun w' hw htag => ?_⟩
    rw [lines_setStatus_invalid] at htag
    by_cases hplace : w' = w ∧ (shape geom).index line = d
    · rw [hplace.1, hplace.2, TaggedLines.tag_setLine_self] at htag
      cases htag
    · rw [TaggedLines.tag_setLine_of_ne hplace] at htag
      exact habsent w' hw htag

/-- The line that a place has is what `clean` sends. -/
theorem sentPatch_tag (hplaced : Placed geom cache) (hw : w < geom.ways)
    (hvalid : (cache.cont w).status d ≠ .invalid) :
    sentPatch ((cache.cont w).tags d) geom.linesize (fun _ => true)
        (fun i => (cache.cont w).data (d * geom.linesize + i)) =
      (lines geom cache).held (shape geom) (w, d) := by
  have htag : (lines geom cache).tag w d = some ((cache.cont w).tags d) := if_neg hvalid
  have hindex := hplaced.lines.index w d _ hw htag
  funext a
  rw [sentPatch_line (hplaced.aligned w d _ hw htag), TaggedLines.held, htag]
  by_cases hline : geom.lineAddr a = (cache.cont w).tags d
  · have hcond : w < (shape geom).ways ∧ (shape geom).index ((shape geom).lineOf a) = d ∧
        some ((cache.cont w).tags d) = some ((shape geom).lineOf a) :=
      ⟨hw, by rw [← hindex, ← hline]; rfl, by rw [← hline]; rfl⟩
    rw [if_pos ⟨hline, rfl⟩, if_pos hcond]
    exact congrArg some (lineBytes_of_lt (geom.mod_lt a) _ _).symm
  · rw [if_neg (fun h => hline h.1), if_neg]
    rintro ⟨-, -, hsome⟩
    exact hline (Option.some.inj hsome).symm

/-- A modified line is written out and dropped. -/
theorem cleanWay_spec (hbanks : geom.secondaryBanks = 1)
    (hshows : Shows geom cache flat) (hw : w < geom.ways) (hd : d < geom.dmapping) :
    ∃ next, cleanWay geom cache w d = some next ∧ Shows geom next flat ∧
      ¬next.lineDirty w d ∧ next.buf0 = cache.buf0 ∧
      ∀ w' d', ¬(w' = w ∧ d' = d) →
        (lines geom next).tag w' d' = (lines geom cache).tag w' d' ∧
          (next.lineDirty w' d' ↔ cache.lineDirty w' d') := by
  obtain ⟨hplaced, hagrees⟩ := hshows
  by_cases hdirty : cache.lineDirty w d
  · refine ⟨_, cleanWay_of_dirty hdirty hd, ⟨(hplaced.drop w d).sendWrite _ _ _ _, ?_⟩,
      ?_, rfl, fun w' d' hplace => ?_⟩
    · have hvalid : (cache.cont w).status d ≠ .invalid := by
        rcases hdirty with h | h <;> rw [h] <;> decide
      have hwritten := hagrees.writeBack (.inl (w, d))
      rw [layers_sendWrite hbanks, sentPatch_tag hplaced hw hvalid, layers,
        lines_setStatus_invalid]
      refine TaggedLines.agrees_drop hwritten ?_ _ _
      intro _ a value hheld
      exact Layers.overlay_of_some hheld _
    · simp [lineDirty, sendWrite, setStatus, setWay]
    · change (lines geom (cache.setStatus w d .invalid)).tag w' d' = _ ∧
        ((lines geom (cache.setStatus w d .invalid)).dirty w' d' ↔ _)
      rw [lines_setStatus_invalid, TaggedLines.tag_setLine_of_ne hplace,
        TaggedLines.dirty_setLine_of_ne hplace]
      exact ⟨rfl, Iff.rfl⟩
  · exact ⟨cache, cleanWay_of_clean hdirty, ⟨hplaced, hagrees⟩, hdirty, rfl,
      fun _ _ _ => ⟨rfl, Iff.rfl⟩⟩

end CleanWay

/-! ## Bringing a line in -/

section Lookup

variable {flat : ℕ → Byte} {w line : ℕ}

/-- Where the victim has been written out, a fetched line takes its place. -/
theorem insert_spec (hbanks : geom.secondaryBanks = 1)
    (hshows : Shows geom cache flat) (hw : w < geom.ways)
    (hline : line % geom.linesize = 0)
    (habsent : (lines geom cache).Absent (shape geom) line)
    (hmiss : cache.hit line = none) {cline : Buffer}
    (hcline : ∀ i, i < geom.linesize → cline i = flat (line + i)) :
    ∃ next, insert geom cache w line (geom.dmap line) cline .shared = some next ∧
      Shows geom next flat ∧ next.present w (geom.dmap line) line = true := by
  have hlt := geom.dmap_lt line
  obtain ⟨cleaned, hcleaned, hshows', hclean, hbuf, hsame⟩ :=
    cleanWay_spec hbanks hshows hw hlt
  -- what `insert` does with the victim is what `clean` does
  have hvictim : evict geom cache w line (geom.dmap line) = some cleaned := by
    have htag : (cache.cont w).status (geom.dmap line) ≠ .invalid →
        line ≠ (cache.cont w).tags (geom.dmap line) := fun hvalid heq =>
      habsent w hw ((if_neg hvalid).trans (congrArg some heq.symm))
    unfold evict
    cases hstatus : (cache.cont w).status (geom.dmap line)
    case modified => exact (if_pos (htag (by simp [hstatus]))).trans hcleaned
    case owned => exact (if_pos (htag (by simp [hstatus]))).trans hcleaned
    all_goals
      rw [cleanWay_of_clean (by simp [lineDirty, hstatus])] at hcleaned
      exact hcleaned
  have habsent' : ∀ w', w' < (shape geom).ways → w' ≠ w →
      (lines geom cleaned).tag w' ((shape geom).index line) ≠ some line := by
    intro w' hw' hne htag
    rw [(hsame w' _ fun h => hne h.1).1] at htag
    exact habsent w' hw' htag
  have hlines := lines_withLine geom cleaned w line (geom.dmap line) cline
  refine ⟨cleaned.setWay w
    (withLine geom (cleaned.cont w) line (geom.dmap line) cline .shared), ?_, ⟨?_, ?_⟩, ?_⟩
  · rw [insert, hvictim, Option.bind_some]
    exact if_pos (line_end_le geom.linesize hlt)
  · refine ⟨hshows'.placed.built, hshows'.placed.lru_lt, ?_, fun w' d' line' hw' htag => ?_,
      fun buf line' hhit => ?_⟩
    · rw [hlines]
      exact hshows'.placed.lines.bringIn habsent' _ _
    · rw [hlines] at htag
      by_cases hplace : w' = w ∧ d' = geom.dmap line
      · rw [hplace.1, hplace.2, TaggedLines.tag_setLine_self, Option.some.injEq] at htag
        rw [← htag, hline]
      · rw [TaggedLines.tag_setLine_of_ne hplace] at htag
        exact hshows'.placed.aligned w' d' line' hw' htag
    · change cleaned.hit line' = some buf at hhit
      obtain ⟨haligned, hnowhere⟩ := hshows'.placed.buffer buf line' hhit
      refine ⟨haligned, fun w' hw' htag => ?_⟩
      rw [hlines] at htag
      by_cases hplace : w' = w ∧ (shape geom).index line' = geom.dmap line
      · rw [hplace.1, hplace.2, TaggedLines.tag_setLine_self, Option.some.injEq] at htag
        rw [hit, hbuf, ← htag] at hhit
        rw [hit, hhit] at hmiss
        cases hmiss
      · rw [TaggedLines.tag_setLine_of_ne hplace] at htag
        exact hnowhere w' hw' htag
  · rw [layers, hlines]
    refine TaggedLines.agrees_bringIn hshows'.agrees (fun hdirty => absurd hdirty hclean)
      (fun a haddr => ?_) _
    change lineBytes _ (copyLine _ _ _ cline) _ (a % geom.linesize) = flat a
    change geom.lineAddr a = line at haddr
    rw [lineBytes_copyLine (geom.mod_lt a), hcline _ (geom.mod_lt a), ← haddr,
      geom.lineAddr_add_mod]
  · rw [present_iff, hlines, TaggedLines.tag_setLine_self]

/-- The search through the ways finds the line or shows that it is not there. -/
theorem find_ways (geom : CacheGeom) (cache : Cache64) (line : ℕ) :
    (∃ w, ((List.range geom.ways).find? fun w =>
          cache.present w (geom.dmap line) line) = some w ∧
        w < geom.ways ∧ cache.present w (geom.dmap line) line = true) ∨
      (((List.range geom.ways).find? fun w => cache.present w (geom.dmap line) line) =
          none ∧
        (lines geom cache).Absent (shape geom) line) := by
  cases hfind : (List.range geom.ways).find? fun w =>
      cache.present w (geom.dmap line) line with
  | none =>
      refine Or.inr ⟨rfl, fun w hw htag => ?_⟩
      exact List.find?_eq_none.mp hfind w (List.mem_range.mpr hw) (present_iff.mpr htag)
  | some w =>
      exact Or.inl ⟨w, rfl, List.mem_range.mp (List.mem_of_find?_eq_some hfind),
        by simpa using List.find?_some hfind⟩

/-- A line that is nowhere in the cache is up to date in the secondary storage. -/
theorem secondary_of_absent (hshows : Shows geom cache flat)
    (hline : line % geom.linesize = 0)
    (habsent : (lines geom cache).Absent (shape geom) line)
    (hmiss : cache.hit line = none) {i : ℕ} (hi : i < geom.linesize) :
    cache.secondary (geom.bank line) (line + i) = flat (line + i) := by
  have haddr : geom.lineAddr (line + i) = line := geom.lineAddr_of_line hline hi
  have hmemory := TaggedLines.memory_of_absent hshows.agrees (a := line + i)
    (by change (lines geom cache).Absent (shape geom) (geom.lineAddr (line + i))
        rw [haddr]
        exact habsent)
    (fun _ => bufferedByte_of_miss (by rw [haddr]; exact hmiss))
  simpa only [haddr] using hmemory

/-- A serviced lookup of a line that the write buffer does not have ends with
the line in a way. -/
theorem lookup_spec (hbanks : geom.secondaryBanks = 1)
    (hshows : Shows geom cache flat) (hline : line % geom.linesize = 0)
    (hmiss : cache.hit line = none) :
    ∃ next w, lookup geom cache true line (geom.dmap line) = some (next, some w) ∧
      w < geom.ways ∧ next.present w (geom.dmap line) line = true ∧
      Shows geom next flat := by
  rcases find_ways geom cache line with
    ⟨w, hfind, hw, hpresent⟩ | ⟨hfind, habsent⟩
  · exact ⟨cache, w, by rw [lookup, hfind], hw, hpresent, hshows⟩
  · generalize hlru : (if cache.lru = geom.ways - 1 then 0 else cache.lru + 1) = lru
    have hlt : lru < geom.ways := by
      have hold := hshows.placed.lru_lt
      rw [← hlru]
      split <;> omega
    have hshows' : Shows geom { cache with lru := lru } flat :=
      ⟨⟨hshows.placed.built, hlt, hshows.placed.lines, hshows.placed.aligned,
        hshows.placed.buffer⟩, hshows.agrees⟩
    obtain ⟨cline, hfetch, hcline⟩ := secondaryLookup_eq geom cache line
    obtain ⟨next, hinsert, hnext, hpresent⟩ := insert_spec hbanks hshows' hlt hline
      habsent hmiss fun i hi =>
        (hcline i hi).trans (secondary_of_absent hshows hline habsent hmiss hi)
    refine ⟨next, lru, ?_, hlt, hpresent, hnext⟩
    rw [lookup, hfind]
    simp only [if_true, hlru, hfetch, Option.bind_some, hinsert, hpresent]

end Lookup

end Cache64

end Prazor.Memory
