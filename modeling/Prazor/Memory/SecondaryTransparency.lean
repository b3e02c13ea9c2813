import Prazor.Core.Guarded
import Prazor.Memory.SecondaryLines

/-!
# When a bank is a transparent memory

Reads answer as a flat memory.  A write does as long as it is harmless: a line
that is written while clean is not marked dirty, and a line that is written
without being fetched keeps the old bytes of its place, whose own unwritten data
are lost.
-/

namespace Prazor.Memory

open Prazor.Tlm

/-- An access with the side that sends it and the place of its primary cache. -/
structure BankRequest where
  id : ℕ
  way : Option ℕ
  trans : Payload

/-- The bytes a write stores, by their places in the memory of the bank. -/
def bankPatch (geom : SecondaryGeom) (trans : Payload) : ℕ → Option Byte := fun real =>
  if geom.realByte trans.address.toNat ≤ real ∧
      real < geom.realByte trans.address.toNat + trans.dataLength ∧
      byteEnabled trans (real - geom.realByte trans.address.toNat) then
    some (trans.data (real - geom.realByte trans.address.toNat))
  else none

/-- What an access is to a flat memory. -/
def bankAccess (geom : SecondaryGeom) (flat : ℕ → Byte) (request : BankRequest) :
    (ℕ → Byte) × Payload :=
  match request.trans.command with
  | .read =>
      (flat, { request.trans with
        data := Bytes.memcpy 8
          (fun i => flat (geom.realByte request.trans.address.toNat + i))
          request.trans.data
        response := .ok })
  | .write =>
      (overlay (bankPatch geom request.trans) flat, { request.trans with response := .ok })
  | .ignore => (flat, request.trans)

/-- The accesses that caches send to a bank: at most a doubleword, reads of a
whole one with a place in the primary cache, writes from data caches only, and a number of
enables that the bank takes for what it is. -/
structure Accepted (geom : SecondaryGeom) (request : BankRequest) : Prop where
  aligned : request.trans.address.toNat % 8 = 0
  inBank : geom.InBank request.trans.address.toNat
  length_le : request.trans.dataLength ≤ 8
  command : request.trans.command ≠ .ignore
  read : request.trans.command = .read →
    request.trans.dataLength = 8 ∧ request.way.isSome
  write : request.trans.command = .write → request.id % 2 = 1
  enables : EnablesFit request.trans

namespace SecondaryCache

variable {geom : SecondaryGeom} {cache : SecondaryCache}

/-- One access, with the payload as the answer. -/
def bankStep (geom : SecondaryGeom) (cache : SecondaryCache) (request : BankRequest) :
    Option (SecondaryCache × Payload) :=
  (bTransport geom cache request.id request.way request.trans).map fun reply =>
    (reply.1, reply.2.trans)

/-! ## Writes that do no harm -/

/-- The write changes the byte at an offset of its line. -/
def Lane (geom : SecondaryGeom) (trans : Payload) (o : ℕ) : Prop :=
  trans.dataLength ≠ 0 ∧ 8 * geom.loffset trans.address.toNat ≤ o ∧
    o < 8 * geom.loffset trans.address.toNat + 8 ∧
    byteEnabled trans (o - 8 * geom.loffset trans.address.toNat)

/-- The enabled lanes that a short write has past its length store what is there. -/
def TailSame (geom : SecondaryGeom) (trans : Payload) (old : ℕ → Byte) : Prop :=
  ∀ i, trans.dataLength ≠ 0 → trans.dataLength ≤ i → i < 8 → byteEnabled trans i →
    trans.data i = old (8 * geom.loffset trans.address.toNat + i)

/-- A write to a line that is there: the line is dirty already, or the write
changes nothing. -/
structure WarmHarmless (geom : SecondaryGeom) (cache : SecondaryCache) (w : ℕ)
    (trans : Payload) : Prop where
  tail : TailSame geom trans (lineBytes geom.linesize (cache.cont w).data
    (geom.dmap trans.address.toNat))
  dirty : (cache.cont w).status (geom.dmap trans.address.toNat) = .dirty ∨
    ∀ i, i < trans.dataLength → byteEnabled trans i →
      trans.data i = lineBytes geom.linesize (cache.cont w).data
        (geom.dmap trans.address.toNat) (8 * geom.loffset trans.address.toNat + i)

/-- The bytes of the memory that a line is kept in. -/
def mainLine (geom : SecondaryGeom) (cache : SecondaryCache) (line : ℕ) : ℕ → Byte :=
  fun o => cache.main (geom.realAddr line + o)

/-- A write to a line that is not there: what is left of the victim is in the
memory, and what the place of the victim has is what the memory has for the
line, where the write does not store. -/
structure ColdHarmless (geom : SecondaryGeom) (cache : SecondaryCache)
    (trans : Payload) : Prop where
  tail : TailSame geom trans
    (mainLine geom cache (geom.lineAddr trans.address.toNat))
  victim : (cache.cont cache.lru).status (geom.dmap trans.address.toNat) = .dirty →
    ∀ o, o < geom.linesize →
      lineBytes geom.linesize (cache.cont cache.lru).data
          (geom.dmap trans.address.toNat) o =
        mainLine geom cache
          ((cache.cont cache.lru).tags (geom.dmap trans.address.toNat)) o
  rest : ∀ o, o < geom.linesize → ¬Lane geom trans o →
    lineBytes geom.linesize (cache.cont cache.lru).data
        (geom.dmap trans.address.toNat) o =
      mainLine geom cache (geom.lineAddr trans.address.toNat) o

/-- The accesses after which the bank still shows what it should. -/
def Harmless (geom : SecondaryGeom) (cache : SecondaryCache) (request : BankRequest) :
    Prop :=
  request.trans.command = .write →
    match findWay geom cache (geom.lineAddr request.trans.address.toNat)
        (geom.dmap request.trans.address.toNat) with
    | some w => WarmHarmless geom cache w request.trans
    | none => ColdHarmless geom cache request.trans

/-! ## The bytes of an access -/

section Access

variable {flat : ℕ → Byte} {trans : Payload}

/-- The line and offset of a byte of the doubleword at an address. -/
theorem doubleword_byte (haligned : trans.address.toNat % 8 = 0)
    (hbank : geom.InBank trans.address.toNat) {i : ℕ} (hi : i < 8) :
    geom.lineOf (geom.realByte trans.address.toNat + i) =
        geom.lineAddr trans.address.toNat ∧
      (geom.realByte trans.address.toNat + i) % geom.linesize =
        8 * geom.loffset trans.address.toNat + i := by
  have hle := geom.loffset_add_le haligned
  have hoffset := geom.loffset_of_aligned haligned
  obtain ⟨hline, hmod⟩ := geom.lineOf_realByte (i := i) hbank (by omega)
  exact ⟨hline, by omega⟩

/-- The line of an address of the bank. -/
theorem exists_lineOf (haligned : trans.address.toNat % 8 = 0)
    (hbank : geom.InBank trans.address.toNat) :
    ∃ real, geom.lineAddr trans.address.toNat = geom.lineOf real := by
  have hfirst := doubleword_byte haligned hbank (i := 0) (by norm_num)
  exact ⟨geom.realByte trans.address.toNat, by simpa using hfirst.1.symm⟩

theorem line_of_bankPatch (haligned : trans.address.toNat % 8 = 0)
    (hbank : geom.InBank trans.address.toNat) (hle : trans.dataLength ≤ 8) {real : ℕ}
    (hpatch : (bankPatch geom trans real).isSome) :
    geom.lineOf real = geom.lineAddr trans.address.toNat := by
  unfold bankPatch at hpatch
  split at hpatch
  case isTrue hin =>
    obtain ⟨i, rfl⟩ := Nat.exists_eq_add_of_le hin.1
    exact (doubleword_byte haligned hbank (by omega)).1
  case isFalse => cases hpatch

/-- The bytes of a write, by their offsets in the line. -/
theorem bankPatch_of_line (haligned : trans.address.toNat % 8 = 0) {real : ℕ}
    (hline : geom.lineOf real = geom.lineAddr trans.address.toNat) :
    bankPatch geom trans real =
      if 8 * geom.loffset trans.address.toNat ≤ real % geom.linesize ∧
          real % geom.linesize <
            8 * geom.loffset trans.address.toNat + trans.dataLength ∧
          byteEnabled trans
            (real % geom.linesize - 8 * geom.loffset trans.address.toNat) then
        some (trans.data
          (real % geom.linesize - 8 * geom.loffset trans.address.toNat))
      else none := by
  have hbase := geom.realAddr_lineOf real
  have hmod := Nat.mod_le real geom.linesize
  have hoffset := geom.loffset_of_aligned haligned
  have hreal : real = geom.realAddr (geom.lineAddr trans.address.toNat) +
      real % geom.linesize := by
    rw [← hline]
    omega
  have hsub : real - geom.realByte trans.address.toNat =
      real % geom.linesize - 8 * geom.loffset trans.address.toNat := by
    rw [SecondaryGeom.realByte]
    omega
  have hle : geom.realByte trans.address.toNat ≤ real ↔
      8 * geom.loffset trans.address.toNat ≤ real % geom.linesize := by
    rw [SecondaryGeom.realByte]
    omega
  have hlt : real < geom.realByte trans.address.toNat + trans.dataLength ↔
      real % geom.linesize <
        8 * geom.loffset trans.address.toNat + trans.dataLength := by
    rw [SecondaryGeom.realByte]
    omega
  simp only [bankPatch, hsub, hle, hlt]

/-- The copy of a write into the line of a way, where what the write leaves are
the old bytes. -/
theorem mergeLanes_line (haligned : trans.address.toNat % 8 = 0)
    (hlength : trans.dataLength ≤ 8) {array : Buffer} {d : ℕ} {old : ℕ → Byte}
    (htail : TailSame geom trans old)
    (hrest : ∀ o, o < geom.linesize → ¬Lane geom trans o →
      lineBytes geom.linesize array d o = old o) {real : ℕ}
    (hline : geom.lineOf real = geom.lineAddr trans.address.toNat) :
    lineBytes geom.linesize (mergeLanes trans
        (d * geom.linesize + 8 * geom.loffset trans.address.toNat) array) d
        (real % geom.linesize) =
      (bankPatch geom trans real).getD (old (real % geom.linesize)) := by
  rw [bankPatch_of_line haligned hline]
  generalize ho : real % geom.linesize = o
  have hlt : o < geom.linesize := ho ▸ geom.mod_lt real
  rcases Nat.eq_zero_or_pos trans.dataLength with hzero | hpos
  · rw [mergeLanes_of_empty hzero, if_neg (by omega), Option.getD_none]
    exact hrest o hlt fun hlane => hlane.1 hzero
  rw [lineBytes_mergeLanes hpos hlength hlt]
  by_cases hlane : Lane geom trans o
  · obtain ⟨-, hge, hend, henabled⟩ := hlane
    rw [if_pos ⟨hge, hend, henabled⟩]
    by_cases hshort :
        o < 8 * geom.loffset trans.address.toNat + trans.dataLength
    · rw [if_pos ⟨hge, hshort, henabled⟩, Option.getD_some]
    · have hsame := htail (o - 8 * geom.loffset trans.address.toNat) hpos.ne'
        (by omega) (by omega) henabled
      rw [if_neg fun h => hshort h.2.1, Option.getD_none, hsame,
        Nat.add_sub_cancel' hge]
  · rw [if_neg fun h => hlane ⟨hpos.ne', h⟩,
      if_neg fun h => hlane ⟨hpos.ne', h.1, by omega, h.2.2⟩, Option.getD_none]
    exact hrest o hlt hlane

/-! ## One access -/

/-- The directory is no part of what the users see. -/
theorem Shows.setDirectory (hshows : Shows geom cache flat)
    (directory : ℕ → ℕ → Panel) :
    Shows geom { cache with directory := directory } flat :=
  ⟨⟨hshows.placed.lru_lt, hshows.placed.lines, hshows.placed.inBank⟩, hshows.agrees⟩

/-- A way that has the line has its bytes. -/
theorem value_of_present (hshows : Shows geom cache flat) {w : ℕ} (hw : w < geom.ways)
    (real : ℕ) (hpresent : cache.present w (geom.dmap (geom.lineOf real))
      (geom.lineOf real) = true) :
    lineBytes geom.linesize (cache.cont w).data (geom.dmap (geom.lineOf real))
      (real % geom.linesize) = flat real := by
  have htag : (lines geom cache).tag w ((shape geom).index ((shape geom).lineOf real)) =
      some ((shape geom).lineOf real) := present_iff.mp hpresent
  have hheld := TaggedLines.held_of_tag hw htag
  exact hshows.agrees.held (.inl _) real _ hheld

/-- A read gives the bytes of the flat memory. -/
theorem read_spec (hfit : BlocksFit geom) (hshows : Shows geom cache flat)
    (haligned : trans.address.toNat % 8 = 0) (hbank : geom.InBank trans.address.toNat)
    (hlength : trans.dataLength = 8) (id way : ℕ) :
    ∃ next messages, read geom cache id (some way) trans = some (next,
        { trans := { trans with
            data := Bytes.memcpy 8
              (fun i => flat (geom.realByte trans.address.toNat + i)) trans.data
            response := .ok }
          invalidations := messages }) ∧
      Shows geom next flat := by
  obtain ⟨real, hreal⟩ := exists_lineOf haligned hbank
  obtain ⟨found, w, messages, hlookup, hw, hfound, hpresent⟩ :=
    lookup_spec hfit hshows real trans.address.toNat
  rw [← hreal, geom.dmap_lineAddr] at hlookup hpresent
  have hdata : Bytes.memcpy 8 (fun i => (found.cont w).data
        (geom.dmap trans.address.toNat * geom.linesize +
          8 * geom.loffset trans.address.toNat + i)) trans.data =
      Bytes.memcpy 8 (fun i => flat (geom.realByte trans.address.toNat + i))
        trans.data := by
    refine Bytes.memcpy_congr (fun i hi => ?_) _
    obtain ⟨hline, hmod⟩ := doubleword_byte haligned hbank hi
    have hle := geom.loffset_add_le haligned
    have hvalue := value_of_present hfound hw (geom.realByte trans.address.toNat + i)
      (by rw [hline, geom.dmap_lineAddr]; exact hpresent)
    rw [hline, geom.dmap_lineAddr, hmod, lineBytes_of_lt (by omega)] at hvalue
    rw [Nat.add_assoc]
    exact hvalue
  simp only [read, Option.bind_some, hlookup, hlength, if_true, hdata]
  refine ⟨_, messages, rfl, ?_⟩
  split
  · exact hfound.setDirectory _
  · exact hfound

/-- The way after a write to one of its lines. -/
theorem lines_storeWay (geom : SecondaryGeom) (cache : SecondaryCache)
    (hlength : trans.dataLength ≤ 8)
    (haligned : trans.address.toNat % 8 = 0) (w d : ℕ) :
    lines geom (storeWay geom cache w d (geom.loffset trans.address.toNat) trans) =
      (lines geom cache).setLine w d ((lines geom cache).tag w d)
        ((lines geom cache).dirty w d)
        (lineBytes geom.linesize (mergeLanes trans
          (d * geom.linesize + 8 * geom.loffset trans.address.toNat)
          (cache.cont w).data) d) := by
  have hle := geom.loffset_add_le haligned
  exact lines_setWay ⟨fun _ _ => rfl, fun _ _ => rfl,
    fun _ hd => lineBytes_congr hd fun _ hj => mergeLanes_of_outside hlength hle _ hj⟩

/-- A write that stores what the line has changes nothing. -/
theorem mergeLanes_same (hlength : trans.dataLength ≤ 8) {array : Buffer} {start : ℕ}
    (hsame : ∀ i, i < 8 → byteEnabled trans i → trans.data i = array (start + i)) :
    mergeLanes trans start array = array := by
  rcases Nat.eq_zero_or_pos trans.dataLength with hzero | hpos
  · exact mergeLanes_of_empty hzero start array
  funext j
  rw [mergeLanes_apply hpos hlength]
  split
  case isTrue hin =>
    rw [hsame (j - start) (by omega) hin.2.2, Nat.add_sub_cancel' hin.1]
  case isFalse => rfl

/-- A write to a line in a way. -/
theorem storeWay_spec (hshows : Shows geom cache flat)
    (haligned : trans.address.toNat % 8 = 0) (hbank : geom.InBank trans.address.toNat)
    (hlength : trans.dataLength ≤ 8) {w : ℕ} (hw : w < geom.ways)
    (hpresent : cache.present w (geom.dmap trans.address.toNat)
      (geom.lineAddr trans.address.toNat) = true)
    (hwarm : WarmHarmless geom cache w trans) :
    Shows geom (storeWay geom cache w (geom.dmap trans.address.toNat)
      (geom.loffset trans.address.toNat) trans)
      (overlay (bankPatch geom trans) flat) := by
  have htag : (lines geom cache).tag w
      ((shape geom).index (geom.lineAddr trans.address.toNat)) =
      some (geom.lineAddr trans.address.toNat) := by
    change (lines geom cache).tag w (geom.dmap (geom.lineAddr trans.address.toNat)) = _
    rw [geom.dmap_lineAddr]
    exact present_iff.mp hpresent
  have hindex : geom.dmap trans.address.toNat =
      (shape geom).index (geom.lineAddr trans.address.toNat) :=
    (geom.dmap_lineAddr _).symm
  rcases hwarm.dirty with hdirty | hsame
  · have hlines := lines_storeWay geom cache hlength haligned w
      (geom.dmap trans.address.toNat)
    have hmarked : (lines geom cache).dirty w (geom.dmap trans.address.toNat) = True :=
      eq_true hdirty
    rw [hmarked, hindex, htag] at hlines
    rw [← hindex] at hlines
    refine ⟨hshows.placed.bringIn (exists_lineOf haligned hbank) (geom.dmap_lineAddr _)
      (fun w' hw' hne htag' => ?_) hlines hshows.placed.lru_lt, ?_⟩
    · rw [hindex] at htag'
      exact hne (hshows.placed.lines.unique w' w _ _ hw' hw htag' htag)
    · rw [layers, hlines, hindex]
      refine TaggedLines.agrees_store hshows.agrees hshows.placed.lines hw htag
        (fun real' hpatch => ?_) (fun real' hline => ?_)
      · exact ⟨line_of_bankPatch haligned hbank hlength hpatch, fun other => other.elim⟩
      · rw [← hindex]
        exact mergeLanes_line haligned hlength hwarm.tail (fun _ _ _ => rfl) hline
  · -- nothing is stored that is not there
    have hle := geom.loffset_add_le haligned
    have hall : ∀ i, i < 8 → trans.dataLength ≠ 0 → byteEnabled trans i →
        trans.data i = lineBytes geom.linesize (cache.cont w).data
          (geom.dmap trans.address.toNat)
          (8 * geom.loffset trans.address.toNat + i) := by
      intro i hi hpos henabled
      rcases Nat.lt_or_ge i trans.dataLength with hlt | hge
      · exact hsame i hlt henabled
      · exact hwarm.tail i hpos hge hi henabled
    have hkept : storeWay geom cache w (geom.dmap trans.address.toNat)
        (geom.loffset trans.address.toNat) trans = cache := by
      have hdata : mergeLanes trans (geom.dmap trans.address.toNat * geom.linesize +
          8 * geom.loffset trans.address.toNat) (cache.cont w).data =
          (cache.cont w).data := by
        rcases Nat.eq_zero_or_pos trans.dataLength with hzero | hpos
        · exact mergeLanes_of_empty hzero _ _
        refine mergeLanes_same hlength fun i hi henabled => ?_
        rw [hall i hi hpos.ne' henabled, lineBytes_of_lt (by omega), Nat.add_assoc]
      rw [storeWay, hdata]
      exact congrArg (fun cont => { cache with cont := cont })
        (Function.update_eq_self w cache.cont)
    have hflat : overlay (bankPatch geom trans) flat = flat := by
      funext real
      cases hpatch : bankPatch geom trans real with
      | none => exact Layers.overlay_of_none hpatch flat
      | some byte =>
          have hline := line_of_bankPatch haligned hbank hlength
            (Option.isSome_iff_exists.mpr ⟨byte, hpatch⟩)
          have hvalue := value_of_present hshows hw real
            (by rw [hline, geom.dmap_lineAddr]; exact hpresent)
          rw [Layers.overlay_of_some hpatch, ← hvalue, hline, geom.dmap_lineAddr]
          rw [bankPatch_of_line haligned hline] at hpatch
          split at hpatch
          case isTrue hin =>
            rw [Option.some.injEq] at hpatch
            rw [← hpatch, hsame _ (by omega) hin.2.2, Nat.add_sub_cancel' hin.1]
          case isFalse => cases hpatch
    rw [hkept, hflat]
    exact hshows

/-- The cache whose next way has been given to a line without fetching it. -/
def taken (geom : SecondaryGeom) (cache : SecondaryCache) (line d : ℕ) :
    SecondaryCache :=
  ({ cache with lru := nextLru geom cache.lru } : SecondaryCache).setWay cache.lru
    { cache.cont cache.lru with
      status := Function.update (cache.cont cache.lru).status d .dirty
      tags := Function.update (cache.cont cache.lru).tags d line }

/-- A line that missed has another tag than the victim, so `clear` is not called. -/
theorem takeWay_eq (hw : cache.lru < geom.ways) {line : ℕ}
    (habsent : (lines geom cache).Absent (shape geom) line) (addr : ℕ) :
    takeWay geom cache line (geom.dmap line) addr =
      some (taken geom cache line (geom.dmap line), []) := by
  have hother : ¬((cache.cont cache.lru).status (geom.dmap line) ≠ .invalid ∧
      (cache.cont cache.lru).tags (geom.dmap line) = line) := by
    rintro ⟨hvalid, htag⟩
    exact habsent cache.lru hw ((if_neg hvalid).trans (congrArg some htag))
  simp only [takeWay, hother, if_false, Option.map_some]
  rfl

theorem lines_taken (geom : SecondaryGeom) (cache : SecondaryCache) (line d : ℕ) :
    lines geom (taken geom cache line d) =
      (lines geom cache).setLine cache.lru d (some line) True
        (lineBytes geom.linesize (cache.cont cache.lru).data d) := by
  let next : SecondaryCache := { cache with lru := nextLru geom cache.lru }
  let way : SecondaryWay :=
    { cache.cont cache.lru with
      status := Function.update (cache.cont cache.lru).status d .dirty
      tags := Function.update (cache.cont cache.lru).tags d line }
  have hchanged : (lineWay geom.linesize (next.cont cache.lru)).ChangedAt d
      (lineWay geom.linesize way) :=
    ⟨fun _ hd' => Function.update_of_ne hd' .., fun _ hd' => Function.update_of_ne hd' ..,
      fun _ _ => rfl⟩
  exact (lines_setWay hchanged).trans (by simp [way, next, lines])

/-- The line after a write that takes the next way. -/
theorem lines_storeWay_taken (geom : SecondaryGeom) (cache : SecondaryCache)
    (hlength : trans.dataLength ≤ 8) (haligned : trans.address.toNat % 8 = 0)
    (line d : ℕ) :
    lines geom (storeWay geom (taken geom cache line d) cache.lru d
        (geom.loffset trans.address.toNat) trans) =
      (lines geom cache).setLine cache.lru d (some line) True
        (lineBytes geom.linesize (mergeLanes trans
          (d * geom.linesize + 8 * geom.loffset trans.address.toNat)
          (cache.cont cache.lru).data) d) := by
  rw [lines_storeWay geom _ hlength haligned, lines_taken, TaggedLines.setLine_setLine]
  simp [taken, setWay]

/-- The victim of a harmless write has nothing that the memory lacks. -/
theorem ColdHarmless.written (hcold : ColdHarmless geom cache trans)
    (hdirty : (lines geom cache).dirty cache.lru (geom.dmap trans.address.toNat))
    {real : ℕ} {byte : Byte}
    (hheld : (lines geom cache).held (shape geom)
      (cache.lru, geom.dmap trans.address.toNat) real = some byte) :
    cache.main real = byte := by
  rw [TaggedLines.held] at hheld
  split at hheld
  case isFalse => cases hheld
  case isTrue hcond =>
    have hstatus : (cache.cont cache.lru).status (geom.dmap trans.address.toNat) =
        .dirty := hdirty
    have htag : (cache.cont cache.lru).tags (geom.dmap trans.address.toNat) =
        geom.lineOf real := by
      have hsome := hcond.2.2
      simp only [lines, hstatus, reduceCtorEq, if_false, Option.some.injEq] at hsome
      exact hsome
    have hbyte : lineBytes geom.linesize (cache.cont cache.lru).data
        (geom.dmap trans.address.toNat) (real % geom.linesize) = byte :=
      Option.some.inj hheld
    have hmain := hcold.victim hdirty (real % geom.linesize) (geom.mod_lt real)
    rw [hbyte, htag, mainLine, geom.realAddr_lineOf,
      Nat.sub_add_cancel (Nat.mod_le _ _)] at hmain
    exact hmain.symm

/-- The bytes that a fetch of a line that is in no way would bring. -/
theorem mainLine_of_absent (hshows : Shows geom cache flat) {real : ℕ}
    (habsent : (lines geom cache).Absent (shape geom) (geom.lineOf real)) :
    mainLine geom cache (geom.lineOf real) (real % geom.linesize) = flat real := by
  have hmain := main_of_absent hshows real habsent (geom.mod_lt real)
  rw [mainLine, hmain, geom.realAddr_lineOf, Nat.sub_add_cancel (Nat.mod_le _ _)]

/-- A harmless write that takes the next way is as if the line had been fetched
over the victim first. -/
theorem taken_spec (hshows : Shows geom cache flat)
    (haligned : trans.address.toNat % 8 = 0) (hbank : geom.InBank trans.address.toNat)
    (hlength : trans.dataLength ≤ 8)
    (habsent : (lines geom cache).Absent (shape geom)
      (geom.lineAddr trans.address.toNat))
    (hcold : ColdHarmless geom cache trans) :
    Shows geom (storeWay geom (taken geom cache (geom.lineAddr trans.address.toNat)
        (geom.dmap trans.address.toNat)) cache.lru (geom.dmap trans.address.toNat)
        (geom.loffset trans.address.toNat) trans)
      (overlay (bankPatch geom trans) flat) := by
  have hlru := hshows.placed.lru_lt
  have hindex : (shape geom).index (geom.lineAddr trans.address.toNat) =
      geom.dmap trans.address.toNat := geom.dmap_lineAddr _
  have hlines := lines_storeWay_taken geom cache hlength haligned
    (geom.lineAddr trans.address.toNat) (geom.dmap trans.address.toNat)
  have habsent' : ∀ w', w' < geom.ways → w' ≠ cache.lru →
      (lines geom cache).tag w' ((shape geom).index (geom.lineAddr trans.address.toNat)) ≠
        some (geom.lineAddr trans.address.toNat) := fun w' hw' _ => habsent w' hw'
  refine ⟨hshows.placed.bringIn (exists_lineOf haligned hbank) hindex
    (hindex ▸ habsent') hlines (nextLru_lt hlru), ?_⟩
  have hfetched : ∀ real, geom.lineOf real = geom.lineAddr trans.address.toNat →
      mainLine geom cache (geom.lineAddr trans.address.toNat) (real % geom.linesize) =
        flat real := by
    intro real hreal
    rw [← hreal]
    exact mainLine_of_absent hshows (hreal ▸ habsent)
  have hbrought := TaggedLines.agrees_bringIn hshows.agrees
    (fun hdirty real byte => hcold.written hdirty) hfetched False
  rw [← hindex] at hbrought
  have hplaced := hshows.placed.lines.bringIn habsent' False
    (mainLine geom cache (geom.lineAddr trans.address.toNat))
  rw [layers, hlines, ← hindex, ← TaggedLines.setLine_setLine _ _
    (some (geom.lineAddr trans.address.toNat)) _ False _
    (mainLine geom cache (geom.lineAddr trans.address.toNat))]
  refine TaggedLines.agrees_store hbrought hplaced hlru
    (TaggedLines.tag_setLine_self _ _ _ _ _) (fun real hpatch => ?_) (fun real hreal => ?_)
  · exact ⟨line_of_bankPatch haligned hbank hlength hpatch, fun other => other.elim⟩
  · rw [TaggedLines.value_setLine_self, hindex]
    exact mergeLanes_line haligned hlength hcold.tail hcold.rest hreal

/-- A harmless write puts its enabled bytes into the flat memory. -/
theorem write_spec {request : BankRequest} (hshows : Shows geom cache flat)
    (haccepted : Accepted geom request) (hcommand : request.trans.command = .write)
    (hharmless : Harmless geom cache request) :
    ∃ next messages, write geom cache request.id request.trans = some (next,
        { trans := { request.trans with response := .ok }, invalidations := messages }) ∧
      Shows geom next (overlay (bankPatch geom request.trans) flat) := by
  obtain ⟨haligned, hbank, hlength, -, -, hwrite⟩ := haccepted
  have hodd := hwrite hcommand
  have hguard := hharmless hcommand
  have hfound := find_ways geom cache (geom.lineAddr request.trans.address.toNat)
  rw [geom.dmap_lineAddr] at hfound
  rcases hfound with ⟨w, hfind, hw, hpresent⟩ | ⟨hfind, habsent⟩
  · rw [hfind] at hguard
    have hstored := storeWay_spec hshows haligned hbank hlength hw hpresent hguard
    simp only [write, hodd, if_true, hfind, Option.map_some]
    exact ⟨_, _, rfl, hstored.setDirectory _⟩
  · rw [hfind] at hguard
    have htaken := takeWay_eq hshows.placed.lru_lt habsent request.trans.address.toNat
    rw [geom.dmap_lineAddr] at htaken
    simp only [write, hodd, if_true, hfind, htaken, Option.map_some]
    exact ⟨_, _, rfl, taken_spec hshows haligned hbank hlength habsent hguard⟩

/-! ## Runs -/

/-- A harmless access answers as the flat memory and leaves the bank showing it. -/
theorem bankStep_refines (hfit : BlocksFit geom) {request : BankRequest}
    (hshows : Shows geom cache flat) (haccepted : Accepted geom request)
    (hharmless : Harmless geom cache request) :
    ∃ next, bankStep geom cache request =
        some (next, (bankAccess geom flat request).2) ∧
      Shows geom next (bankAccess geom flat request).1 := by
  have hlong : ¬8 < request.trans.dataLength := Nat.not_lt.mpr haccepted.length_le
  cases hcase : request.trans.command with
  | ignore => exact absurd hcase haccepted.command
  | read =>
      obtain ⟨hlength, hsome⟩ := haccepted.read hcase
      obtain ⟨way, hway⟩ := Option.isSome_iff_exists.mp hsome
      obtain ⟨next, messages, hstep, hnext⟩ := read_spec hfit hshows haccepted.aligned
        haccepted.inBank hlength request.id way
      refine ⟨next, ?_, ?_⟩
      · simp only [bankStep, bTransport, if_neg hlong, hcase, hway, hstep, bankAccess,
          Option.map_some]
      · simpa only [bankAccess, hcase] using hnext
  | write =>
      obtain ⟨next, messages, hstep, hnext⟩ := write_spec hshows haccepted hcase hharmless
      refine ⟨next, ?_, ?_⟩
      · simp only [bankStep, bTransport, if_neg hlong, hcase, hstep, bankAccess,
          Option.map_some]
      · simpa only [bankAccess, hcase] using hnext

end Access

/-! ## Cleaning and runs -/

/-- After cleaning the memory of the bank is the flat memory. -/
theorem clean_spec (hfit : BlocksFit geom) {flat : ℕ → Byte}
    (hshows : Shows geom cache flat) :
    ∃ next, clean geom cache = some next ∧ next.main = flat := by
  -- a mark is a place that is not dirty; one line settles one, one way a row of them
  have hline : ∀ w, w < geom.ways → ∀ (cache : SecondaryCache) l,
      l ∈ List.range geom.dmapping → Shows geom cache flat →
      ∃ next, (clear geom cache w l none).map Prod.fst = some next ∧
        Shows geom next flat ∧
        (∀ mark : ℕ × ℕ, mark = (w, l) → (next.cont mark.1).status mark.2 ≠ .dirty) ∧
        ∀ mark : ℕ × ℕ, (cache.cont mark.1).status mark.2 ≠ .dirty →
          (next.cont mark.1).status mark.2 ≠ .dirty := by
    intro w hw cache l hl hshows
    obtain ⟨next, messages, hclear, hnext, hcleared⟩ :=
      clear_spec hfit hshows hw (List.mem_range.mp hl) none
    refine ⟨next, by rw [hclear, Option.map_some], hnext,
      fun mark hmark => hmark ▸ hcleared.clean, fun mark hnot => ?_⟩
    by_cases hplace : mark.1 = w ∧ mark.2 = l
    · rw [hplace.1, hplace.2]
      exact hcleared.clean
    · exact fun hdirty => hnot ((hcleared.same _ _ hplace).2.mp hdirty)
  have hway : ∀ (cache : SecondaryCache) w, w ∈ List.range geom.ways →
      Shows geom cache flat →
      ∃ next, (List.range geom.dmapping).foldlM (fun cache l =>
          (clear geom cache w l none).map Prod.fst) cache = some next ∧
        Shows geom next flat ∧
        (∀ mark : ℕ × ℕ, mark.1 = w ∧ mark.2 < geom.dmapping →
          (next.cont mark.1).status mark.2 ≠ .dirty) ∧
        ∀ mark : ℕ × ℕ, (cache.cont mark.1).status mark.2 ≠ .dirty →
          (next.cont mark.1).status mark.2 ≠ .dirty := by
    intro cache w hw hshows
    obtain ⟨next, hfold, hnext, hlines, hkeeps⟩ :=
      Guarded.foldlM_settles (hline w (List.mem_range.mp hw)) hshows
    exact ⟨next, hfold, hnext, fun mark hmark =>
      hlines mark.2 (List.mem_range.mpr hmark.2) mark (Prod.ext hmark.1 rfl), hkeeps⟩
  obtain ⟨next, hfold, hnext, hways, -⟩ := Guarded.foldlM_settles hway hshows
  refine ⟨next, hfold, hnext.agrees.memory_eq fun holder real hdirty => ?_⟩
  cases holder with
  | inr other => exact other.elim
  | inl place =>
      change (lines geom next).held (shape geom) place real = none
      rw [TaggedLines.held, if_neg]
      rintro ⟨hw, hindex, -⟩
      have hlt : place.2 < geom.dmapping := lt_of_eq_of_lt hindex.symm (geom.dmap_lt _)
      exact hways place.1 (List.mem_range.mpr hw) place ⟨rfl, hlt⟩ hdirty

theorem shows_powerOn (geom : SecondaryGeom) (tags : ℕ → ℕ → ℕ) (data : ℕ → Buffer)
    (main : ℕ → Byte) : Shows geom (powerOn tags data main) main where
  placed :=
    { lru_lt := geom.ways_pos
      lines :=
        { index := fun w d line _ htag => by simp [lines, powerOn] at htag
          unique := fun w w' d line _ _ htag => by simp [lines, powerOn] at htag }
      inBank := fun w d line _ htag => by simp [lines, powerOn] at htag }
  agrees := by
    change (layers geom (powerOn tags data main)).Agrees
      (layers geom (powerOn tags data main)).memory
    refine Layers.Agrees.of_held_none fun holder real => ?_
    cases holder with
    | inr other => exact other.elim
    | inl place =>
        refine TaggedLines.held_of_absent (fun w _ htag => ?_) place
        simp [lines, powerOn] at htag

/-- From power-on the accesses are answered as by a flat memory, every byte that
a line has is that memory's, and so are all bytes below after `clean`. -/
def TransparentRun (geom : SecondaryGeom) (tags : ℕ → ℕ → ℕ) (data : ℕ → Buffer)
    (main : ℕ → Byte) (requests : List BankRequest) : Prop :=
  ∃ final cleaned,
    Guarded.serve (bankStep geom) (powerOn tags data main) requests =
      some (final, Machine.outputs (bankAccess geom) main requests) ∧
    (∀ w real, w < geom.ways →
      final.present w (geom.dmap (geom.lineOf real)) (geom.lineOf real) = true →
      lineBytes geom.linesize (final.cont w).data (geom.dmap (geom.lineOf real))
        (real % geom.linesize) = Machine.run (bankAccess geom) main requests real) ∧
    clean geom final = some cleaned ∧
    cleaned.main = Machine.run (bankAccess geom) main requests

/-- A run in which every write is harmless is that of a flat memory. -/
theorem transparent_of_harmless (hfit : BlocksFit geom) (tags : ℕ → ℕ → ℕ)
    (data : ℕ → Buffer) (main : ℕ → Byte) (requests : List BankRequest)
    (haccepted : ∀ request ∈ requests, Accepted geom request)
    (hharmless : Guarded.Meets (Guarded.advance (bankStep geom)) (Harmless geom)
      (powerOn tags data main) requests) :
    TransparentRun geom tags data main requests := by
  have hstep : ∀ cache flat request, Shows geom cache flat →
      (Accepted geom request ∧ Harmless geom cache request) →
      ∃ next, bankStep geom cache request =
          some (next, (bankAccess geom flat request).2) ∧
        Shows geom next (bankAccess geom flat request).1 :=
    fun cache flat request hshows hguard =>
      bankStep_refines hfit hshows hguard.1 hguard.2
  obtain ⟨final, hserve, hfinal⟩ := Guarded.serve_refines hstep
    (shows_powerOn geom tags data main)
    (Guarded.meets_and (Guarded.meets_of_forall _ haccepted) hharmless)
  obtain ⟨cleaned, hclean, hmain⟩ := clean_spec hfit hfinal
  exact ⟨final, cleaned, hserve,
    fun w real hw hpresent => value_of_present hfinal hw real hpresent, hclean, hmain⟩

/-! ## A bank with one line -/

theorem oneBank_pow : ∃ k, 1 = 2 ^ k := ⟨0, rfl⟩

/-- One way with one line of eight bytes. -/
def oneLine : SecondaryGeom where
  idx := 0
  bytes := 8
  linesize := 8
  ways := 1
  secondaryWidth := 64
  secondaryBl := 1
  banks := 1
  primaryBytes := 64
  primaryLinesize := 8
  primaryWays := 1
  linesize_pow := ⟨3, rfl⟩
  linesize_ge := le_refl 8
  banks_pow := oneBank_pow
  idx_lt := Nat.one_pos
  ways_pos := Nat.one_pos
  dmapping_pow := ⟨0, rfl⟩

/-- A doubleword of one byte value, written by or read for the first data cache. -/
def wordRequest (command : Command) (byte : Byte) : BankRequest where
  id := 1
  way := some 0
  trans :=
    { command := command
      address := 0
      data := fun _ => byte
      dataLength := 8
      byteEnable := none
      byteEnableLength := 0
      llsc := none
      response := .incomplete }

theorem accepted_wordRequest {command : Command} (hcommand : command ≠ .ignore)
    (byte : Byte) : Accepted oneLine (wordRequest command byte) where
  aligned := rfl
  inBank := by simp [SecondaryGeom.InBank, oneLine, wordRequest]
  length_le := le_refl 8
  command := hcommand
  read _ := ⟨rfl, rfl⟩
  write _ := rfl
  enables := fun hsome => by cases hsome

theorem blocksFit_oneLine : BlocksFit oneLine where
  pos := by decide
  dvd := ⟨1, rfl⟩
  linesize_le := by norm_num [oneLine, maxLinesize]

/-- Whole lines are stored, first over nothing and then over a dirty line. -/
theorem transparent_of_harmless_oneLine :
    TransparentRun oneLine (fun _ _ => 0) (fun _ _ => 0) (fun _ => 0)
      [wordRequest .write 1, wordRequest .write 2, wordRequest .read 0] := by
  refine transparent_of_harmless blocksFit_oneLine _ _ _ _ (fun request hrequest => ?_) ?_
  · simp only [List.mem_cons, List.not_mem_nil, or_false] at hrequest
    rcases hrequest with rfl | rfl | rfl <;> exact accepted_wordRequest (by decide) _
  · have hfirst : oneLine.loffset 0 = 0 := by decide
    have hlane : ∀ byte o, o < oneLine.linesize →
        Lane oneLine (wordRequest .write byte).trans o := by
      intro byte o ho
      change 8 ≠ 0 ∧ 8 * oneLine.loffset 0 ≤ o ∧ o < 8 * oneLine.loffset 0 + 8 ∧ _
      rw [hfirst]
      exact ⟨by norm_num, Nat.zero_le o, ho, rfl⟩
    refine Guarded.meets_cons rfl (fun _ => ?_) (Guarded.meets_cons rfl (fun _ => ?_)
      (Guarded.meets_cons rfl (fun hread => nomatch hread) trivial))
    · exact ⟨fun i _ hge hi _ => absurd hi (Nat.not_lt.mpr hge),
        (fun hdirty => nomatch hdirty), fun o ho hnot => absurd (hlane 1 o ho) hnot⟩
    · exact ⟨fun i _ hge hi _ => absurd hi (Nat.not_lt.mpr hge), .inl rfl⟩

/-- A line that was read and then written is not written out. -/
theorem not_transparent_oneLine :
    ¬∀ requests, (∀ request ∈ requests, Accepted oneLine request) →
      TransparentRun oneLine (fun _ _ => 0) (fun _ _ => 0) (fun _ => 0) requests := by
  intro htransparent
  obtain ⟨final, cleaned, hserve, -, hclean, hmain⟩ :=
    htransparent [wordRequest .read 0, wordRequest .write 1] fun request hrequest => by
      simp only [List.mem_cons, List.not_mem_nil, or_false] at hrequest
      rcases hrequest with rfl | rfl <;> exact accepted_wordRequest (by decide) _
  have hlost : ((Guarded.serve (bankStep oneLine)
      (powerOn (fun _ _ => 0) (fun _ _ => 0) fun _ => 0)
      [wordRequest .read 0, wordRequest .write 1]).bind fun served =>
        (clean oneLine served.1).map fun cleaned => cleaned.main 0) = some 0 := by
    decide
  rw [hserve, Option.bind_some, hclean, Option.map_some, hmain] at hlost
  revert hlost
  decide

end SecondaryCache

end Prazor.Memory
