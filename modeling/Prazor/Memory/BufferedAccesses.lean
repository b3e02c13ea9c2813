import Prazor.Memory.CachedLines

/-!
# Accesses through the write buffer

A write goes to the write buffer, to a line of a way or past the cache, and a
read comes from the write buffer or from a line.  Each is what a flat memory
does, as long as the write buffer is not copied in blocks longer than itself.
-/

namespace Prazor.Memory

open Prazor.Tlm

namespace Cache64

variable {geom : CacheGeom} {cache : Cache64}

/-! ## The write buffer -/

section Buffer

variable {flat : ℕ → Byte}

theorem bufferedByte_of_hit (geom : CacheGeom) {buf : WriteBuffer} {line : ℕ}
    (hhit : cache.hit line = some buf) (a : ℕ) :
    bufferedByte geom cache a =
      if geom.lineAddr a = line ∧ buf.dirty (a % geom.linesize) then
        some (buf.cline (a % geom.linesize))
      else none := by
  obtain ⟨hbuf, hmAddr⟩ := hit_eq_some.mp hhit
  rw [bufferedByte]
  by_cases haddr : geom.lineAddr a = line
  · rw [haddr, hhit, Option.bind_some]
    simp
  · have hmiss : cache.hit (geom.lineAddr a) = none := by
      refine hit_eq_none.mpr fun other hother hline => haddr ?_
      rw [hbuf, Option.some.injEq] at hother
      rw [← hother, hmAddr, Option.some.injEq] at hline
      exact hline.symm
    rw [hmiss, if_neg fun h => haddr h.1]
    rfl

/-- The write buffer gets other contents; the lines stay. -/
theorem layers_setBuffer (next : Option WriteBuffer) :
    layers geom { cache with buf0 := next } =
      (layers geom cache).put (.inr ()) (bufferedByte geom { cache with buf0 := next })
        True := by
  apply Layers.ext
  · funext holder
    cases holder with
    | inl place => rw [Layers.held_put_of_ne (by simp)]; rfl
    | inr other => rw [Layers.held_put_self]; rfl
  · funext holder
    cases holder with
    | inl place => rw [Layers.dirty_put_of_ne (by simp)]; rfl
    | inr other => rw [Layers.dirty_put_self]; rfl
  · rfl

theorem Placed.setBuffer (hplaced : Placed geom cache) {buf : WriteBuffer}
    (hbuf : cache.buf0 = some buf) {next : WriteBuffer}
    (hnext : ∀ line, next.mAddr = some line →
      line % geom.linesize = 0 ∧ (Cache64.lines geom cache).Absent (shape geom) line) :
    Placed geom { cache with buf0 := some next } where
  built := by
    rw [← hplaced.built, hbuf]
    rfl
  lru_lt := hplaced.lru_lt
  lines := hplaced.lines
  aligned := hplaced.aligned
  buffer other line hhit := by
    obtain ⟨hother, hline⟩ := hit_eq_some.mp hhit
    rw [Option.some.injEq] at hother
    exact hnext line (hother ▸ hline)

/-- The write buffer is written out byte by byte, and is empty then. -/
theorem cleanBuffer_spec (hbanks : geom.secondaryBanks = 1)
    (hblock : geom.useWriteBuffer → geom.secondaryBlocksizeBytes = geom.linesize)
    (hshows : Shows geom cache flat) :
    ∃ next, cleanBuffer geom cache = some next ∧ Shows geom next flat ∧
      next.buf0 = cache.buf0.map (fun buf => { buf with mAddr := none }) ∧
      next.cont = cache.cont ∧
      next.secondary = Function.update cache.secondary 0
        (overlay (bufferedByte geom cache) (cache.secondary 0)) := by
  by_cases hfull : ∃ buf line, cache.hit line = some buf
  · obtain ⟨buf, line, hhit⟩ := hfull
    obtain ⟨hbuf, hmAddr⟩ := hit_eq_some.mp hhit
    have haligned := (hshows.placed.buffer buf line hhit).1
    have hsent : sentPatch line geom.linesize buf.dirty buf.cline =
        bufferedByte geom cache := by
      funext a
      rw [sentPatch_line haligned, bufferedByte_of_hit geom hhit]
    refine ⟨_, cleanBuffer_of_full (hblock (by simp [← hshows.placed.built, hbuf]))
      hbuf hmAddr, ⟨?_, ?_⟩, by simp [sendWrite, emptied, hbuf], rfl, ?_⟩
    · refine (hshows.placed.setBuffer hbuf fun line' hline' => ?_).sendWrite _ _ _ _
      cases hline'
    · rw [layers_sendWrite hbanks, hsent, emptied, layers_setBuffer]
      refine (hshows.agrees.writeBack (.inr ())).put ?_ ?_ _
      · intro _ a value hheld
        exact Layers.overlay_of_some hheld _
      · intro a value hheld
        rw [bufferedByte_of_miss (by simp [hit])] at hheld
        cases hheld
    · rw [← hsent]
      funext b a
      by_cases hb : b = 0
      · subst hb
        simp only [sendWrite, emptied, Function.update_self, stored, overlay, sentPatch]
        split <;> rfl
      · simp [sendWrite, emptied, hb]
  · have hempty : ∀ buf, cache.buf0 = some buf → buf.mAddr = none := by
      intro buf hbuf
      by_contra hne
      obtain ⟨line, hline⟩ := Option.ne_none_iff_exists'.mp hne
      exact hfull ⟨buf, line, hit_eq_some.mpr ⟨hbuf, hline⟩⟩
    refine ⟨cache, cleanBuffer_of_empty hempty, hshows, ?_, rfl, ?_⟩
    · cases hbuf : cache.buf0 with
      | none => rfl
      | some buf =>
          have := hempty buf hbuf
          cases buf
          simp_all
    · have hnone : bufferedByte geom cache = fun _ => none := by
        funext a
        refine bufferedByte_of_miss ?_
        by_contra hne
        obtain ⟨buf, hbuf⟩ := Option.ne_none_iff_exists'.mp hne
        exact hfull ⟨buf, _, hbuf⟩
      rw [hnone]
      exact (Function.update_eq_self 0 cache.secondary).symm

end Buffer

/-! ## Accesses -/

/-- What an access is to a flat memory, lengths that are no doubleword being
refused. -/
def flatAccess (flat : ℕ → Byte) (trans : Payload) : (ℕ → Byte) × Payload :=
  if trans.dataLength % 8 ≠ 0 then (flat, { trans with response := .burstError })
  else
    match trans.command with
    | .read => (flat, answered flat trans)
    | .write => (overlay (patch trans) flat, { trans with response := .ok })
    | .ignore => (flat, { trans with response := .ok })

/-- The accesses a core sends: at most a doubleword, at the address of a
doubleword, no read of nothing, and a number of enables that the caches take for what it
is. -/
structure Plain (trans : Payload) : Prop where
  aligned : trans.address.toNat % 8 = 0
  length_le : trans.dataLength ≤ 8
  read_pos : trans.command = .read → trans.dataLength ≠ 0
  enables : EnablesFit trans

section Access

variable {flat : ℕ → Byte} {trans : Payload}

/-- A byte of the doubleword at an aligned address. -/
theorem doubleword_byte (geom : CacheGeom) {addr i : ℕ} (haligned : addr % 8 = 0) (hi : i < 8) :
    geom.lineAddr (addr + i) = geom.lineAddr addr ∧
      (addr + i) % geom.linesize = 8 * geom.loffset addr + i := by
  have hle := geom.loffset_add_le haligned
  have hoffset := geom.loffset_of_aligned haligned
  have hsplit := geom.lineAddr_add_mod addr
  have heq : addr + i = geom.lineAddr addr + (8 * geom.loffset addr + i) := by omega
  rw [heq]
  exact ⟨geom.lineAddr_of_line (geom.lineAddr_mod addr) (by omega),
    geom.mod_of_line (geom.lineAddr_mod addr) (by omega)⟩

theorem readWay_spec (hshows : Shows geom cache flat) {w addr : ℕ}
    (haligned : addr % 8 = 0) (hw : w < geom.ways)
    (hpresent : cache.present w (geom.dmap addr) (geom.lineAddr addr) = true) :
    ∃ ans, readWay geom cache w (geom.dmap addr) (geom.loffset addr) = some ans ∧
      ∀ i, i < 8 → ans i = flat (addr + i) := by
  have hle := geom.loffset_add_le haligned
  have hend := line_end_le geom.linesize (geom.dmap_lt addr)
  refine ⟨_, if_pos (by omega), fun i hi => ?_⟩
  obtain ⟨hline, hmod⟩ := doubleword_byte geom haligned hi
  have hdmap : geom.dmap (geom.lineAddr (addr + i)) = geom.dmap addr := by
    rw [hline, geom.dmap_lineAddr]
  have htag : (lines geom cache).tag w
      ((shape geom).index ((shape geom).lineOf (addr + i))) =
      some ((shape geom).lineOf (addr + i)) := by
    change (lines geom cache).tag w (geom.dmap (geom.lineAddr (addr + i))) =
      some (geom.lineAddr (addr + i))
    rw [hdmap, hline]
    exact present_iff.mp hpresent
  have hheld := TaggedLines.held_of_tag hw htag
  have hvalue := hshows.agrees.held (.inl _) (addr + i) _ hheld
  change lineBytes _ _ (geom.dmap (geom.lineAddr (addr + i)))
    ((addr + i) % geom.linesize) = flat (addr + i) at hvalue
  rw [← hvalue, hdmap, hmod, lineBytes_of_lt (by omega), Nat.add_assoc]

/-- A read gives the bytes of the flat memory. -/
theorem read_spec (hbanks : geom.secondaryBanks = 1)
    (hblock : geom.useWriteBuffer → geom.secondaryBlocksizeBytes = geom.linesize)
    (hshows : Shows geom cache flat) {addr : ℕ} (haligned : addr % 8 = 0) :
    ∃ next ans, read geom cache (geom.lineAddr addr) (geom.loffset addr)
        (geom.dmap addr) = some (next, ans) ∧
      Shows geom next flat ∧ ∀ i, i < 8 → ans i = flat (addr + i) := by
  have hle := geom.loffset_add_le haligned
  -- what is left to do once the write buffer does not have the line
  have hfrom : ∀ cache : Cache64, Shows geom cache flat →
      cache.hit (geom.lineAddr addr) = none →
      ∃ next ans, ((lookup geom cache true (geom.lineAddr addr) (geom.dmap addr)).bind
          fun found => found.2.bind fun w =>
            (readWay geom found.1 w (geom.dmap addr) (geom.loffset addr)).map
              fun ans => (found.1, ans)) = some (next, ans) ∧
        Shows geom next flat ∧ ∀ i, i < 8 → ans i = flat (addr + i) := by
    intro cache hshows hmiss
    obtain ⟨next, w, hlookup, hw, hpresent, hnext⟩ :=
      lookup_spec hbanks hshows (geom.lineAddr_mod addr) hmiss
    rw [geom.dmap_lineAddr] at hlookup hpresent
    obtain ⟨ans, hread, hans⟩ := readWay_spec hnext haligned hw hpresent
    refine ⟨next, ans, ?_, hnext, hans⟩
    rw [hlookup, Option.bind_some, Option.bind_some, hread, Option.map_some]
  cases hhit : cache.hit (geom.lineAddr addr) with
  | none =>
      obtain ⟨next, ans, hread, hnext⟩ := hfrom cache hshows hhit
      exact ⟨next, ans, by simpa only [read, hhit] using hread, hnext⟩
  | some buf =>
      by_cases hword : wordPresent buf (geom.loffset addr)
      · refine ⟨cache, fun i => buf.cline (geom.loffset addr * 8 + i), ?_, hshows,
          fun i hi => ?_⟩
        · simp only [read, hhit, hword, if_true]
          exact if_pos (by omega)
        · obtain ⟨hline, hmod⟩ := doubleword_byte geom haligned hi
          have hdirty : buf.dirty (geom.loffset addr * 8 + i) = true := by
            simpa [hi] using List.all_eq_true.mp hword i (List.mem_range.mpr hi)
          have hheld := bufferedByte_of_hit geom hhit (addr + i)
          rw [hline, hmod, mul_comm 8, if_pos ⟨rfl, hdirty⟩] at hheld
          exact hshows.agrees.held (.inr ()) (addr + i) _ hheld
      · obtain ⟨cleaned, hclean, hcleaned, hbuf, -, -⟩ :=
          cleanBuffer_spec hbanks hblock hshows
        have hmiss : cleaned.hit (geom.lineAddr addr) = none := by
          rw [hit, hbuf]
          cases cache.buf0 <;> simp
        obtain ⟨next, ans, hread, hnext⟩ := hfrom cleaned hcleaned hmiss
        refine ⟨next, ans, ?_, hnext⟩
        simp only [read, hhit, hword, Bool.false_eq_true, if_false, hclean,
          Option.bind_some]
        exact hread

/-- The bytes of a write, by their places in the line. -/
theorem patch_eq (geom : CacheGeom) (haligned : trans.address.toNat % 8 = 0)
    (hle : trans.dataLength ≤ 8) (a : ℕ) :
    patch trans a =
      if geom.lineAddr a = geom.lineAddr trans.address.toNat ∧
          8 * geom.loffset trans.address.toNat ≤ a % geom.linesize ∧
          a % geom.linesize < 8 * geom.loffset trans.address.toNat + trans.dataLength ∧
          byteEnabled trans (a % geom.linesize - 8 * geom.loffset trans.address.toNat) then
        some (trans.data (a % geom.linesize - 8 * geom.loffset trans.address.toNat))
      else none := by
  have hsplit := geom.lineAddr_add_mod trans.address.toNat
  have hoffset := geom.loffset_of_aligned haligned
  by_cases hin : trans.address.toNat ≤ a ∧ a < trans.address.toNat + trans.dataLength
  · obtain ⟨i, rfl⟩ := Nat.exists_eq_add_of_le hin.1
    obtain ⟨hline, hmod⟩ := doubleword_byte geom (i := i) haligned (by omega)
    rw [patch, hline, hmod, Nat.add_sub_cancel_left, Nat.add_sub_cancel_left]
    simp only [hin, true_and, Nat.le_add_right, Nat.add_lt_add_iff_left,
      show i < trans.dataLength by omega]
  · rw [patch, if_neg fun h => hin ⟨h.1, h.2.1⟩, if_neg]
    rintro ⟨hline, hge, hlt, -⟩
    have hsplit' := geom.lineAddr_add_mod a
    apply hin
    omega

theorem line_of_patch (geom : CacheGeom) (haligned : trans.address.toNat % 8 = 0)
    (hle : trans.dataLength ≤ 8) {a : ℕ} (hpatch : (patch trans a).isSome) :
    geom.lineAddr a = geom.lineAddr trans.address.toNat := by
  rw [patch_eq geom haligned hle] at hpatch
  split at hpatch
  case isTrue hin => exact hin.1
  case isFalse => cases hpatch

/-- The copy of a write into an array of the line's bytes. -/
theorem mergeLanes_line (hplain : Plain trans) (hdouble : trans.dataLength % 8 = 0)
    {a : ℕ} (hline : geom.lineAddr a = geom.lineAddr trans.address.toNat)
    (array : Buffer) (d : ℕ) :
    lineBytes geom.linesize (mergeLanes trans
        (d * geom.linesize + 8 * geom.loffset trans.address.toNat) array) d
        (a % geom.linesize) =
      (patch trans a).getD (lineBytes geom.linesize array d (a % geom.linesize)) := by
  have hlength := hplain.length_le
  rw [patch_eq geom hplain.aligned hlength]
  rcases Nat.eq_zero_or_pos trans.dataLength with hzero | hpos
  · rw [mergeLanes_of_empty hzero, hzero, if_neg (by omega), Option.getD_none]
  · have height : trans.dataLength = 8 := by omega
    rw [lineBytes_mergeLanes hpos hlength (geom.mod_lt a), height]
    simp only [hline, true_and]
    split <;> rfl

/-- Marking and copying put the bytes of a write into the write buffer. -/
theorem storeBuffer_spec (hplain : Plain trans) (hdouble : trans.dataLength % 8 = 0)
    (hshows : Shows geom cache flat) {buf : WriteBuffer}
    (hhit : cache.hit (geom.lineAddr trans.address.toNat) = some buf) :
    ∃ next, storeBuffer geom cache buf (geom.loffset trans.address.toNat) trans =
        some next ∧ Shows geom next (overlay (patch trans) flat) := by
  have haligned := hplain.aligned
  have hle := geom.loffset_add_le haligned
  have hmax := geom.linesize_le
  have hlength := hplain.length_le
  obtain ⟨hbuf, hmAddr⟩ := hit_eq_some.mp hhit
  obtain ⟨-, habsent⟩ := hshows.placed.buffer buf _ hhit
  let buf' : WriteBuffer :=
    { buf with
      dirty := markDirty trans (geom.loffset trans.address.toNat) buf.dirty
      cline := mergeLanes trans (8 * geom.loffset trans.address.toNat) buf.cline }
  refine ⟨{ cache with buf0 := some buf' }, if_pos ⟨hle, by omega⟩, ?_, ?_⟩
  · exact hshows.placed.setBuffer hbuf fun line hline =>
      hshows.placed.buffer buf line (hit_eq_some.mpr ⟨hbuf, hline⟩)
  · have hhit' : hit { cache with buf0 := some buf' }
        (geom.lineAddr trans.address.toNat) = some buf' := hit_eq_some.mpr ⟨rfl, hmAddr⟩
    have hheld : bufferedByte geom { cache with buf0 := some buf' } =
        fun a => (patch trans a).or (bufferedByte geom cache a) := by
      funext a
      rw [bufferedByte_of_hit geom hhit', bufferedByte_of_hit geom hhit,
        patch_eq geom haligned hlength]
      by_cases hline : geom.lineAddr a = geom.lineAddr trans.address.toNat
      swap
      · simp [hline]
      simp only [buf', hline, true_and, markDirty, foldl_update_lanes]
      rcases Nat.eq_zero_or_pos trans.dataLength with hzero | hpos
      · have hnone : ∀ enabled : Bool,
            ¬(8 * geom.loffset trans.address.toNat ≤ a % geom.linesize ∧
              a % geom.linesize <
                8 * geom.loffset trans.address.toNat + trans.dataLength ∧
              enabled = true) := by
          rintro enabled ⟨hge, hlt, -⟩
          omega
        rw [mergeLanes_of_empty hzero]
        simp only [hnone, if_false, Option.none_or]
      · have height : trans.dataLength = 8 := by omega
        rw [mergeLanes_apply hpos hlength, height]
        split <;> simp
    rw [layers_setBuffer, hheld]
    refine hshows.agrees.store fun other a hother hpatch => ?_
    cases other with
    | inl place =>
        -- the line of the write buffer is in no way
        refine TaggedLines.held_of_absent ?_ place
        change (lines geom cache).Absent (shape geom) (geom.lineAddr a)
        rw [line_of_patch geom haligned hlength hpatch]
        exact habsent
    | inr other => exact absurd rfl hother

/-- The way after a write to one of its lines. -/
theorem lines_storeWay (cache : Cache64) (trans : Payload) {w d : ℕ}
    (hle : trans.dataLength ≤ 8) {o : ℕ} (hend : o + 8 ≤ geom.linesize)
    (hvalid : (cache.cont w).status d ≠ .invalid) :
    lines geom ((cache.setStatus w d .modified).setWay w
        { (cache.setStatus w d .modified).cont w with
          data := mergeLanes trans (d * geom.linesize + o)
            ((cache.setStatus w d .modified).cont w).data }) =
      (lines geom cache).setLine w d ((lines geom cache).tag w d) True
        (lineBytes geom.linesize
          (mergeLanes trans (d * geom.linesize + o) (cache.cont w).data) d) := by
  have hway : (cache.setStatus w d .modified).setWay w
      { (cache.setStatus w d .modified).cont w with
        data := mergeLanes trans (d * geom.linesize + o)
          ((cache.setStatus w d .modified).cont w).data } =
      cache.setWay w
        { status := Function.update (cache.cont w).status d .modified
          tags := (cache.cont w).tags
          data := mergeLanes trans (d * geom.linesize + o) (cache.cont w).data } := by
    simp [setStatus, setWay]
  have hchanged : (lineWay geom.linesize (cache.cont w)).ChangedAt d
      (lineWay geom.linesize
        { status := Function.update (cache.cont w).status d .modified
          tags := (cache.cont w).tags
          data := mergeLanes trans (d * geom.linesize + o) (cache.cont w).data }) :=
    { state := fun _ hd => Function.update_of_ne hd ..
      tag := fun _ _ => rfl
      value := fun _ hd => lineBytes_congr hd fun _ hj =>
        mergeLanes_of_outside hle hend _ hj }
  rw [hway, lines_setWay hchanged]
  simp [lines, hvalid]

/-- A write to a line in a way makes it modified. -/
theorem storeWay_spec (hplain : Plain trans) (hdouble : trans.dataLength % 8 = 0)
    (hshows : Shows geom cache flat) {w : ℕ} (hw : w < geom.ways)
    (hpresent : cache.present w (geom.dmap trans.address.toNat)
      (geom.lineAddr trans.address.toNat) = true)
    (hmiss : cache.hit (geom.lineAddr trans.address.toNat) = none) :
    ∃ next, storeWay geom
        (cache.setStatus w (geom.dmap trans.address.toNat) .modified) w
        (geom.dmap trans.address.toNat) (geom.loffset trans.address.toNat) trans =
        some next ∧ Shows geom next (overlay (patch trans) flat) := by
  have haligned := hplain.aligned
  have hle := geom.loffset_add_le haligned
  have hlength := hplain.length_le
  have hend := line_end_le geom.linesize (geom.dmap_lt trans.address.toNat)
  have htag : (lines geom cache).tag w
      ((shape geom).index (geom.lineAddr trans.address.toNat)) =
      some (geom.lineAddr trans.address.toNat) := by
    change (lines geom cache).tag w (geom.dmap (geom.lineAddr trans.address.toNat)) = _
    rw [geom.dmap_lineAddr]
    exact present_iff.mp hpresent
  have hindex : geom.dmap trans.address.toNat =
      (shape geom).index (geom.lineAddr trans.address.toNat) :=
    (geom.dmap_lineAddr _).symm
  have hvalid : (cache.cont w).status (geom.dmap trans.address.toNat) ≠ .invalid := by
    intro hinvalid
    rw [present, hinvalid] at hpresent
    simp at hpresent
  have hlines := lines_storeWay cache trans hlength hle hvalid
  refine ⟨_, if_pos (by omega), ?_, ?_⟩
  · have hplaced := hshows.placed
    refine ⟨hplaced.built, hplaced.lru_lt, ?_, fun w' d' line hw' htag' => ?_,
      fun buf line hhit => ?_⟩
    · rw [hlines, hindex, htag]
      refine hplaced.lines.bringIn (fun w' hw' hne htag' => ?_) _ _
      exact hne (hplaced.lines.unique w' w _ _ hw' hw htag' htag)
    · rw [hlines] at htag'
      by_cases hplace : w' = w ∧ d' = geom.dmap trans.address.toNat
      · rw [hplace.1, hplace.2, TaggedLines.tag_setLine_self] at htag'
        exact hplaced.aligned w _ line hw htag'
      · rw [TaggedLines.tag_setLine_of_ne hplace] at htag'
        exact hplaced.aligned w' d' line hw' htag'
    · obtain ⟨haligned', habsent⟩ := hplaced.buffer buf line hhit
      refine ⟨haligned', fun w' hw' htag' => ?_⟩
      rw [hlines] at htag'
      by_cases hplace : w' = w ∧ (shape geom).index line = geom.dmap trans.address.toNat
      · rw [hplace.1, hplace.2, TaggedLines.tag_setLine_self, ← hplace.2] at htag'
        exact habsent w hw htag'
      · rw [TaggedLines.tag_setLine_of_ne hplace] at htag'
        exact habsent w' hw' htag'
  · rw [layers, hlines, hindex, htag]
    refine TaggedLines.agrees_store hshows.agrees hshows.placed.lines hw htag
      (fun a hpatch => ?_) (fun a hline => ?_)
    · have hline := line_of_patch geom haligned hlength hpatch
      exact ⟨hline, fun _ => bufferedByte_of_miss (hline ▸ hmiss)⟩
    · exact mergeLanes_line hplain hdouble hline _ _

/-- A write that goes past the cache, when no write buffer was built. -/
theorem sendWrite_spec (hbanks : geom.secondaryBanks = 1)
    (hplain : Plain trans) (hshows : Shows geom cache flat)
    (habsent : (lines geom cache).Absent (shape geom)
      (geom.lineAddr trans.address.toNat))
    (hmiss : cache.hit (geom.lineAddr trans.address.toNat) = none) :
    Shows geom (cache.sendWrite trans.address.toNat trans.dataLength
      (byteEnabled trans) trans.data) (overlay (patch trans) flat) := by
  refine ⟨hshows.placed.sendWrite _ _ _ _, ?_⟩
  rw [layers_sendWrite hbanks]
  refine hshows.agrees.storeBelow fun holder a hpatch => ?_
  have hline := line_of_patch geom hplain.aligned hplain.length_le hpatch
  cases holder with
  | inl place =>
      refine TaggedLines.held_of_absent ?_ place
      change (lines geom cache).Absent (shape geom) (geom.lineAddr a)
      rw [hline]
      exact habsent
  | inr other => exact bufferedByte_of_miss (hline ▸ hmiss)

/-- `init` of a buffer that has been written out holds nothing yet. -/
theorem init_spec (hshows : Shows geom cache flat) {buf : WriteBuffer} {line : ℕ}
    (hbuf : cache.buf0 = some buf) (hempty : buf.mAddr = none)
    (hline : line % geom.linesize = 0)
    (habsent : (lines geom cache).Absent (shape geom) line) :
    Shows geom { cache with
      buf0 := some { buf with mAddr := some line, dirty := fun _ => false } } flat := by
  refine ⟨hshows.placed.setBuffer hbuf fun line' hline' => ?_, ?_⟩
  · rw [Option.some.injEq] at hline'
    exact hline' ▸ ⟨hline, habsent⟩
  · rw [layers_setBuffer]
    refine hshows.agrees.put ?_ ?_ _
    · intro _ a value hheld
      change bufferedByte geom cache a = some value at hheld
      rw [bufferedByte_of_miss (by simp [hit, hbuf, hempty])] at hheld
      cases hheld
    · intro a value hheld
      rw [bufferedByte_of_hit geom (hit_eq_some.mpr ⟨rfl, rfl⟩)] at hheld
      simp at hheld

/-- A write puts its enabled bytes into the flat memory. -/
theorem writeBack_spec (hbanks : geom.secondaryBanks = 1)
    (hblock : geom.useWriteBuffer → geom.secondaryBlocksizeBytes = geom.linesize)
    (hshows : Shows geom cache flat) (hplain : Plain trans)
    (hdouble : trans.dataLength % 8 = 0) :
    ∃ next, writeBack geom cache trans (geom.lineAddr trans.address.toNat)
        (geom.loffset trans.address.toNat) (geom.dmap trans.address.toNat) = some next ∧
      Shows geom next (overlay (patch trans) flat) := by
  cases hhit : cache.hit (geom.lineAddr trans.address.toNat) with
  | some buf =>
      obtain ⟨next, hstore, hnext⟩ := storeBuffer_spec hplain hdouble hshows hhit
      exact ⟨next, by rw [writeBack, hhit]; exact hstore, hnext⟩
  | none =>
      have hfound := find_ways geom cache (geom.lineAddr trans.address.toNat)
      rw [geom.dmap_lineAddr] at hfound
      rcases hfound with ⟨w, hfind, hw, hpresent⟩ | ⟨hfind, habsent⟩
      · obtain ⟨next, hstore, hnext⟩ :=
          storeWay_spec hplain hdouble hshows hw hpresent hhit
        refine ⟨next, ?_, hnext⟩
        rw [writeBack, hhit]
        simp only [lookup, hfind, Option.bind_some]
        exact hstore
      · cases hbuf : cache.buf0 with
        | none =>
            refine ⟨_, ?_, sendWrite_spec hbanks hplain hshows habsent hhit⟩
            rw [writeBack, hhit]
            simp only [lookup, hfind, Bool.false_eq_true, if_false, Option.bind_some,
              hbuf]
        | some buf =>
            obtain ⟨cleaned, hclean, hcleaned, hbuf', hcont, -⟩ :=
              cleanBuffer_spec hbanks hblock hshows
            rw [hbuf, Option.map_some] at hbuf'
            have hinit := init_spec hcleaned hbuf' rfl
              (geom.lineAddr_mod trans.address.toNat)
              (by simpa only [TaggedLines.Absent, lines, hcont] using habsent)
            obtain ⟨next, hstore, hnext⟩ := storeBuffer_spec hplain hdouble hinit
              (hit_eq_some.mpr ⟨rfl, rfl⟩)
            refine ⟨next, ?_, hnext⟩
            rw [writeBack, hhit]
            simp only [lookup, hfind, Bool.false_eq_true, if_false, Option.bind_some,
              hbuf, hclean, hbuf', initBuffer, if_true]
            exact hstore

/-- An access answers as the flat memory and leaves the cache showing it. -/
theorem bAccess_refines (hbanks : geom.secondaryBanks = 1)
    (hblock : geom.useWriteBuffer → geom.secondaryBlocksizeBytes = geom.linesize)
    (hshows : Shows geom cache flat) (hplain : Plain trans) :
    ∃ next, bAccess geom cache trans = some (next, (flatAccess flat trans).2) ∧
      Shows geom next (flatAccess flat trans).1 := by
  have hlength : ¬8 < trans.dataLength := Nat.not_lt.mpr hplain.length_le
  rw [bAccess, flatAccess]
  simp only [hlength, if_false]
  by_cases hdouble : trans.dataLength % 8 = 0
  swap
  · exact ⟨cache, by simp [hdouble], by simpa [hdouble] using hshows⟩
  simp only [hdouble, ne_eq, not_true_eq_false, if_false]
  cases hcommand : trans.command with
  | read =>
      have hpos := hplain.read_pos hcommand
      have height : trans.dataLength = 8 := by omega
      obtain ⟨next, ans, hread, hnext, hans⟩ :=
        read_spec hbanks hblock hshows hplain.aligned
      have hdata : Bytes.memcpy 8 ans trans.data =
          Bytes.memcpy 8 (fun i => flat (trans.address.toNat + i)) trans.data := by
        funext i
        unfold Bytes.memcpy
        split
        · exact hans i ‹_›
        · rfl
      refine ⟨next, ?_, hnext⟩
      simp only [hread, Option.bind_some, height, if_true, hdata, answered, hcommand]
  | write =>
      obtain ⟨next, hwrite, hnext⟩ := writeBack_spec hbanks hblock hshows hplain hdouble
      exact ⟨next, by simp only [hwrite, Option.map_some], hnext⟩
  | ignore => exact ⟨cache, rfl, hshows⟩

end Access

end Cache64

end Prazor.Memory
