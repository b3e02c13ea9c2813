import Prazor.Core.Payload

/-!
# Setting memory

`memset` sets single bytes until the address is aligned, then words, eight and one at
a time, and the last bytes one by one again.  An `unsigned long` has four bytes on one
platform and eight on another; addresses have as many bits.  All loops share the
address and the length.
-/

namespace Prazor.Crt.Memset

/-- `sizeof(unsigned long int)` of a platform. -/
inductive Platform where
  | word32
  | word64
  deriving DecidableEq

def Platform.opsiz : Platform → ℕ
  | word32 => 4
  | word64 => 8

variable (platform : Platform)

/-- A pointer, a `long` and an `op_t` have the same number of bits. -/
abbrev Platform.Address := BitVec (8 * platform.opsiz)

/-- The variables of the loops and the memory, with the addresses of the word stores
made so far. -/
structure State where
  dstp : platform.Address
  len : ℕ
  bytes : platform.Address → Byte
  wordStores : List platform.Address

variable {platform}

/-- `((byte *) dstp)[0] = c; dstp += 1; len -= 1;` -/
def setByte (c : Byte) (state : State platform) : State platform :=
  { state with
    dstp := state.dstp + 1
    len := state.len - 1
    bytes := Function.update state.bytes state.dstp c }

/-- `((op_t *) dstp)[k] = cccc;` -/
def storeWord (cccc : platform.Address) (k : ℕ) (state : State platform) : State platform :=
  let place := state.dstp + BitVec.ofNat _ (k * platform.opsiz)
  { state with
    bytes := fun other =>
      if (other - place).toNat < platform.opsiz then
        cccc.extractLsb' (8 * (other - place).toNat) 8
      else state.bytes other
    wordStores := place :: state.wordStores }

/-- `dstp += words * OPSIZ;` -/
def advance (words : ℕ) (state : State platform) : State platform :=
  { state with dstp := state.dstp + BitVec.ofNat _ (words * platform.opsiz) }

/-- The byte, in every byte of a word. -/
def spread (platform : Platform) (c : Byte) : platform.Address :=
  let cccc : platform.Address := c.setWidth _
  let cccc := cccc ||| cccc <<< 8
  let cccc := cccc ||| cccc <<< 16
  if platform.opsiz > 4 then cccc ||| (cccc <<< 16) <<< 16 else cccc

/-- The loop that aligns the address, for at most `fuel` turns. -/
def alignLoop (c : Byte) : ℕ → State platform → Option (State platform)
  | 0, _ => none
  | fuel + 1, state =>
      if state.dstp.toInt.tmod platform.opsiz ≠ 0 then alignLoop c fuel (setByte c state)
      else some state

/-- The loop of eight words, whose counter is `xlen`. -/
def eightWordsLoop (cccc : platform.Address) : ℕ → State platform → State platform
  | 0, state => state
  | xlen + 1, state =>
      eightWordsLoop cccc xlen
        (advance 8 ((List.range 8).foldl (fun state k => storeWord cccc k state) state))

/-- The loop of single words. -/
def wordsLoop (cccc : platform.Address) : ℕ → State platform → State platform
  | 0, state => state
  | xlen + 1, state => wordsLoop cccc xlen (advance 1 (storeWord cccc 0 state))

/-- `len %= size;` -/
def lenMod (size : ℕ) (state : State platform) : State platform :=
  { state with len := state.len % size }

/-- The branch for at least eight bytes. -/
def setWords (c : Byte) (state : State platform) : Option (State platform) :=
  (alignLoop c platform.opsiz state).map fun state =>
    let cccc := spread platform c
    let state := lenMod (platform.opsiz * 8)
      (eightWordsLoop cccc (state.len / (platform.opsiz * 8)) state)
    lenMod platform.opsiz (wordsLoop cccc (state.len / platform.opsiz) state)

/-- The last loop, whose counter is `len`. -/
def lastLoop (c : Byte) : ℕ → State platform → State platform
  | 0, state => state
  | len + 1, state => lastLoop c len (setByte c state)

/-- `memset`; `none` when the first loop takes more than `OPSIZ` turns. -/
def memset (memory : platform.Address → Byte) (dstpp : platform.Address) (c : BitVec 32)
    (len : ℕ) : Option (State platform) :=
  let state : State platform := { dstp := dstpp, len := len, bytes := memory, wordStores := [] }
  let value : Byte := c.setWidth 8
  (if 8 ≤ len then setWords value state else some state).map fun state =>
    lastLoop value state.len state

/-! ## Bytes that have been set -/

/-- The memory with some bytes from an address on set to a value. -/
def filled (memory : platform.Address → Byte) (dst : platform.Address) (c : Byte)
    (count : ℕ) : platform.Address → Byte := fun other =>
  if (other - dst).toNat < count then c else memory other

variable {memory : platform.Address → Byte} {dst : platform.Address} {c : Byte}

/-- The bytes that follow are within the ones set, or as far behind them as they are
from the place reached. -/
theorem distance_lt_iff (other dst : platform.Address) (done more : ℕ) :
    (other - dst).toNat < done + more ↔
      (other - dst).toNat < done ∨
        (other - (dst + BitVec.ofNat _ done)).toNat < more := by
  have hsplit : other - (dst + BitVec.ofNat _ done) = other - dst - BitVec.ofNat _ done := by
    rw [BitVec.sub_sub]
  rcases Nat.lt_or_ge (other - dst).toNat done with hlt | hge
  · exact iff_of_true (Nat.lt_add_right more hlt) (Or.inl hlt)
  · have hsmall : done < 2 ^ (8 * platform.opsiz) := hge.trans_lt (other - dst).isLt
    have hdone : (BitVec.ofNat (8 * platform.opsiz) done).toNat = done := by
      rw [BitVec.toNat_ofNat, Nat.mod_eq_of_lt hsmall]
    have hle : BitVec.ofNat (8 * platform.opsiz) done ≤ other - dst := by
      rw [BitVec.le_def, hdone]
      exact hge
    have hbehind : (other - (dst + BitVec.ofNat _ done)).toNat = (other - dst).toNat - done := by
      rw [hsplit, BitVec.toNat_sub_of_le hle, hdone]
    omega

/-- The lower `n` bits of a word repeat the byte, and the others are zero. -/
def Repeats {w : ℕ} (c : Byte) (n : ℕ) (word : BitVec w) : Prop :=
  ∀ j < w, word.getLsbD j = (decide (j < n) && c.getLsbD (j % 8))

theorem repeats_setWidth {w : ℕ} (c : Byte) : Repeats c 8 (c.setWidth w) := by
  intro j hj
  rw [BitVec.getLsbD_setWidth, decide_eq_true hj, Bool.true_and]
  by_cases hlt : j < 8
  · rw [decide_eq_true hlt, Nat.mod_eq_of_lt hlt, Bool.true_and]
  · rw [decide_eq_false hlt, Bool.false_and, BitVec.getLsbD_of_ge c j (Nat.not_lt.mp hlt)]

/-- A word or-ed with itself, moved up by as many bits as repeat. -/
theorem Repeats.double {w n : ℕ} {c : Byte} {word : BitVec w} (hword : Repeats c n word)
    (hbytes : 8 ∣ n) : Repeats c (n + n) (word ||| word <<< n) := by
  intro j hj
  rw [BitVec.getLsbD_or, hword j hj, BitVec.getLsbD_shiftLeft, decide_eq_true hj,
    Bool.true_and]
  by_cases hlt : j < n
  · have hsum : j < n + n := by omega
    simp only [hlt, hsum, decide_true, Bool.true_and, Bool.not_true, Bool.false_and,
      Bool.or_false]
  · have hback : j - n < w := by omega
    have hmod : (j - n) % 8 = j % 8 := by omega
    have hsum : j - n < n ↔ j < n + n := by omega
    simp only [hlt, decide_false, Bool.false_and, Bool.not_false, Bool.true_and,
      Bool.false_or, hword (j - n) hback, hmod, hsum]

/-- All bits of the word repeat the byte. -/
theorem repeats_spread (platform : Platform) (c : Byte) :
    Repeats c (8 * platform.opsiz) (spread platform c) := by
  have hhalf : Repeats c 32 (_ : platform.Address) :=
    ((repeats_setWidth c).double (by decide)).double (by decide)
  cases platform with
  | word32 => exact hhalf
  | word64 =>
      have hword := hhalf.double (by decide)
      rw [spread, if_pos (by decide), ← BitVec.shiftLeft_add]
      exact hword

/-- Every byte of the word is the byte that is spread. -/
theorem extractLsb'_spread (platform : Platform) (c : Byte) {k : ℕ}
    (hk : k < platform.opsiz) : (spread platform c).extractLsb' (8 * k) 8 = c := by
  apply BitVec.eq_of_getLsbD_eq
  intro i hi
  have hlt : 8 * k + i < 8 * platform.opsiz := by omega
  have hmod : (8 * k + i) % 8 = i := by omega
  rw [BitVec.getLsbD_extractLsb', repeats_spread platform c _ hlt, decide_eq_true hlt,
    decide_eq_true hi, hmod]
  rfl

/-! ## The loops -/

/-- Bytes have been set from the start on, and the address is that of one of the next
bytes; words have been stored at aligned addresses only. -/
structure Reached (memory : platform.Address → Byte) (dst : platform.Address) (c : Byte)
    (place done : ℕ) (state : State platform) : Prop where
  dstp : state.dstp = dst + BitVec.ofNat _ place
  bytes : state.bytes = filled memory dst c done
  aligned : ∀ a ∈ state.wordStores, platform.opsiz ∣ a.toNat

variable {place done : ℕ} {state : State platform}

/-- The bytes of a store at the next place are added to those that have been set. -/
theorem filled_add (memory : platform.Address → Byte) (dst : platform.Address) (c : Byte)
    (done more : ℕ) :
    filled memory dst c (done + more) = fun other =>
      if (other - (dst + BitVec.ofNat _ done)).toNat < more then c
      else filled memory dst c done other := by
  funext other
  simp only [filled, distance_lt_iff other dst done more]
  by_cases hdone : (other - dst).toNat < done
  · simp only [hdone, true_or, if_true, ite_self]
  · simp only [hdone, false_or, if_false]

theorem Reached.setByte (hreached : Reached memory dst c done done state) :
    Reached memory dst c (done + 1) (done + 1) (setByte c state) where
  dstp := by
    change state.dstp + 1 = _
    rw [hreached.dstp, BitVec.add_assoc, BitVec.ofNat_add]
    rfl
  bytes := by
    funext other
    have hzero : (other - state.dstp).toNat < 1 ↔ other = state.dstp := by
      rw [Nat.lt_one_iff, ← sub_eq_zero (a := other), ← BitVec.toNat_inj]
      rfl
    rw [filled_add, ← hreached.dstp, ← hreached.bytes]
    simp only [Memset.setByte, Function.update_apply, hzero]
  aligned := hreached.aligned

/-- Addresses are aligned modulo the size of a word, also when they wrap around. -/
theorem dvd_toNat_add_iff (address : platform.Address) (k : ℕ) :
    platform.opsiz ∣ (address + BitVec.ofNat _ k).toNat ↔
      platform.opsiz ∣ address.toNat + k := by
  have hwrap : platform.opsiz ∣ 2 ^ (8 * platform.opsiz) := by
    cases platform <;> decide
  rw [BitVec.toNat_add, BitVec.toNat_ofNat, Nat.add_mod_mod, Nat.dvd_mod_iff hwrap]

/-- A store to a word behind the aligned address. -/
theorem Reached.storeWord {k : ℕ}
    (hreached : Reached memory dst c place (place + k * platform.opsiz) state)
    (haligned : platform.opsiz ∣ state.dstp.toNat) :
    Reached memory dst c place (place + (k + 1) * platform.opsiz)
      (storeWord (spread platform c) k state) where
  dstp := hreached.dstp
  bytes := by
    funext other
    rw [Nat.succ_mul, ← Nat.add_assoc, filled_add, ← hreached.bytes, BitVec.ofNat_add,
      ← BitVec.add_assoc, ← hreached.dstp]
    simp only [Memset.storeWord]
    by_cases hnear :
        (other - (state.dstp + BitVec.ofNat _ (k * platform.opsiz))).toNat < platform.opsiz
    · rw [if_pos hnear, if_pos hnear, extractLsb'_spread platform c hnear]
    · rw [if_neg hnear, if_neg hnear]
  aligned := by
    intro a ha
    rcases List.mem_cons.mp ha with rfl | hbefore
    · rw [dvd_toNat_add_iff]
      exact Nat.dvd_add haligned (Nat.dvd_mul_left _ k)
    · exact hreached.aligned a hbefore

/-- Several words are stored behind the aligned address, which stays. -/
theorem Reached.storeWords (hreached : Reached memory dst c place place state)
    (haligned : platform.opsiz ∣ state.dstp.toNat) (words : ℕ) :
    Reached memory dst c place (place + words * platform.opsiz)
      ((List.range words).foldl
        (fun state k => Memset.storeWord (spread platform c) k state) state) ∧
    ((List.range words).foldl
        (fun state k => Memset.storeWord (spread platform c) k state) state).len = state.len := by
  induction words with
  | zero =>
      rw [Nat.zero_mul]
      exact ⟨hreached, rfl⟩
  | succ words ih =>
      obtain ⟨hwords, hlen⟩ := ih
      have hdstp : platform.opsiz ∣ ((List.range words).foldl
          (fun state k => Memset.storeWord (spread platform c) k state) state).dstp.toNat := by
        rw [hwords.dstp, ← hreached.dstp]
        exact haligned
      rw [List.range_succ, List.foldl_append]
      exact ⟨hwords.storeWord hdstp, hlen⟩

theorem Reached.advance {words : ℕ}
    (hreached : Reached memory dst c place (place + words * platform.opsiz) state) :
    Reached memory dst c (place + words * platform.opsiz) (place + words * platform.opsiz)
      (advance words state) where
  dstp := by
    rw [BitVec.ofNat_add, ← BitVec.add_assoc, ← hreached.dstp]
    rfl
  bytes := hreached.bytes
  aligned := hreached.aligned

/-- An advance by words keeps the address aligned. -/
theorem dvd_dstp_advance {words : ℕ} (haligned : platform.opsiz ∣ state.dstp.toNat) :
    platform.opsiz ∣ (advance words state).dstp.toNat :=
  (dvd_toNat_add_iff state.dstp _).mpr (Nat.dvd_add haligned (Nat.dvd_mul_left _ words))

/-- One turn of a loop of words. -/
theorem Reached.turn (hreached : Reached memory dst c place place state)
    (haligned : platform.opsiz ∣ state.dstp.toNat) (words : ℕ) :
    ∃ next, Memset.advance words ((List.range words).foldl
        (fun state k => Memset.storeWord (spread platform c) k state) state) = next ∧
      Reached memory dst c (place + words * platform.opsiz) (place + words * platform.opsiz) next ∧
      platform.opsiz ∣ next.dstp.toNat ∧ next.len = state.len := by
  obtain ⟨hwords, hlen⟩ := hreached.storeWords haligned words
  have hdstp : platform.opsiz ∣ ((List.range words).foldl
      (fun state k => Memset.storeWord (spread platform c) k state) state).dstp.toNat := by
    rw [hwords.dstp, ← hreached.dstp]
    exact haligned
  exact ⟨_, rfl, hwords.advance, dvd_dstp_advance hdstp, hlen⟩

/-- The loop of eight words. -/
theorem Reached.eightWordsLoop (xlen : ℕ) (hreached : Reached memory dst c place place state)
    (haligned : platform.opsiz ∣ state.dstp.toNat) :
    ∃ next, Memset.eightWordsLoop (spread platform c) xlen state = next ∧
      Reached memory dst c (place + xlen * (8 * platform.opsiz))
        (place + xlen * (8 * platform.opsiz)) next ∧
      platform.opsiz ∣ next.dstp.toNat ∧ next.len = state.len := by
  induction xlen generalizing place state with
  | zero =>
      rw [Nat.zero_mul]
      exact ⟨state, rfl, hreached, haligned, rfl⟩
  | succ xlen ih =>
      obtain ⟨turned, hturn, hplace, hdstp, hlen⟩ := hreached.turn haligned 8
      obtain ⟨next, hnext, hdone, hend, hsame⟩ := ih hplace hdstp
      have hsum : place + (xlen + 1) * (8 * platform.opsiz) =
          place + 8 * platform.opsiz + xlen * (8 * platform.opsiz) := by ring
      rw [Memset.eightWordsLoop, hturn, hsum]
      exact ⟨next, hnext, hdone, hend, hsame.trans hlen⟩

/-- The loop of single words. -/
theorem Reached.wordsLoop (xlen : ℕ) (hreached : Reached memory dst c place place state)
    (haligned : platform.opsiz ∣ state.dstp.toNat) :
    ∃ next, Memset.wordsLoop (spread platform c) xlen state = next ∧
      Reached memory dst c (place + xlen * platform.opsiz) (place + xlen * platform.opsiz) next ∧
      next.len = state.len := by
  induction xlen generalizing place state with
  | zero =>
      rw [Nat.zero_mul]
      exact ⟨state, rfl, hreached, rfl⟩
  | succ xlen ih =>
      obtain ⟨turned, hturn, hplace, hdstp, hlen⟩ := hreached.turn haligned 1
      obtain ⟨next, hnext, hdone, hsame⟩ := ih hplace hdstp
      have hsum : place + (xlen + 1) * platform.opsiz =
          place + 1 * platform.opsiz + xlen * platform.opsiz := by ring
      have hword : Memset.advance 1 (Memset.storeWord (spread platform c) 0 state) = turned :=
        hturn
      rw [Memset.wordsLoop, hword, hsum]
      exact ⟨next, hnext, hdone, hsame.trans hlen⟩

/-- The last bytes. -/
theorem Reached.lastLoop (len : ℕ) (hreached : Reached memory dst c done done state) :
    Reached memory dst c (done + len) (done + len) (Memset.lastLoop c len state) := by
  induction len generalizing done state with
  | zero => exact hreached
  | succ len ih =>
      have hsum : done + (len + 1) = done + 1 + len := by omega
      rw [hsum]
      exact ih hreached.setByte

/-- The signed remainder of an address is zero exactly when the address is aligned. -/
theorem tmod_eq_zero_iff (address : platform.Address) :
    address.toInt.tmod platform.opsiz = 0 ↔ platform.opsiz ∣ address.toNat := by
  have hwrap : (platform.opsiz : ℤ) ∣ (2 ^ (8 * platform.opsiz) : ℕ) := by
    cases platform <;> decide
  have hsame := dvd_iff_dvd_of_dvd_sub
    (hwrap.trans (Int.dvd_bmod_sub_self (x := address.toNat)))
  rw [← Int.dvd_iff_tmod_eq_zero, BitVec.toInt_eq_toNat_bmod, hsame]
  exact Int.natCast_dvd_natCast

theorem opsiz_pos (platform : Platform) : 0 < platform.opsiz := by
  cases platform <;> decide

/-- How far an address is from the next aligned one. -/
def gap (address : platform.Address) : ℕ :=
  (platform.opsiz - address.toNat % platform.opsiz) % platform.opsiz

theorem gap_lt (address : platform.Address) : gap address < platform.opsiz :=
  Nat.mod_lt _ (opsiz_pos platform)

/-- The next byte of an address that is not aligned is nearer. -/
theorem gap_add_one {address : platform.Address} (hodd : ¬ platform.opsiz ∣ address.toNat) :
    gap (address + 1) + 1 = gap address := by
  have hpos := opsiz_pos platform
  have hlt := Nat.mod_lt address.toNat hpos
  have hne : address.toNat % platform.opsiz ≠ 0 := fun h => hodd (Nat.dvd_of_mod_eq_zero h)
  have hwrap : platform.opsiz ∣ 2 ^ (8 * platform.opsiz) := by
    cases platform <;> decide
  have hnext : (address + 1).toNat % platform.opsiz =
      (address.toNat % platform.opsiz + 1) % platform.opsiz := by
    have hone : (1 : platform.Address) = BitVec.ofNat _ 1 := rfl
    rw [hone, BitVec.toNat_add, BitVec.toNat_ofNat, Nat.add_mod_mod,
      Nat.mod_mod_of_dvd _ hwrap, Nat.mod_add_mod]
  have hgap : gap address = platform.opsiz - address.toNat % platform.opsiz :=
    Nat.mod_eq_of_lt (by omega)
  rw [hgap, gap, hnext]
  rcases Nat.lt_or_eq_of_le (Nat.succ_le_of_lt hlt) with hmore | hlast
  · rw [Nat.mod_eq_of_lt hmore, Nat.mod_eq_of_lt (by omega)]
    omega
  · have hfull : address.toNat % platform.opsiz + 1 = platform.opsiz := hlast
    rw [hfull, Nat.mod_self, Nat.sub_zero, Nat.mod_self]
    omega

/-- The first loop ends at the next aligned address. -/
theorem Reached.alignLoop (fuel : ℕ) (hreached : Reached memory dst c done done state)
    (hfuel : gap state.dstp < fuel) :
    ∃ next, Memset.alignLoop c fuel state = some next ∧
      Reached memory dst c (done + gap state.dstp) (done + gap state.dstp) next ∧
      platform.opsiz ∣ next.dstp.toNat ∧ next.len = state.len - gap state.dstp := by
  induction fuel generalizing done state with
  | zero => exact absurd hfuel (Nat.not_lt_zero _)
  | succ fuel ih =>
      by_cases haligned : platform.opsiz ∣ state.dstp.toNat
      · have hgap : gap state.dstp = 0 := by
          rw [gap, Nat.mod_eq_zero_of_dvd haligned, Nat.sub_zero, Nat.mod_self]
        rw [Memset.alignLoop, if_neg (not_not.mpr ((tmod_eq_zero_iff _).mpr haligned)), hgap]
        exact ⟨state, rfl, hreached, haligned, rfl⟩
      · have hnearer : gap (Memset.setByte c state).dstp + 1 = gap state.dstp :=
          gap_add_one haligned
        obtain ⟨next, hnext, hplace, hend, hlen⟩ := ih hreached.setByte (by omega)
        rw [Memset.alignLoop, if_pos (mt (tmod_eq_zero_iff _).mp haligned), ← hnearer]
        have hsum : done + (gap (Memset.setByte c state).dstp + 1) =
            done + 1 + gap (Memset.setByte c state).dstp := by omega
        have hless : next.len = state.len - (gap (Memset.setByte c state).dstp + 1) := by
          rw [hlen, Nat.add_comm, ← Nat.sub_sub]
          rfl
        rw [hsum]
        exact ⟨next, hnext, hplace, hend, hless⟩

/-! ## The whole function -/

/-- The branch for at least eight bytes sets all but the bytes that remain. -/
theorem Reached.setWords (hreached : Reached memory dst c 0 0 state) (hlen : 8 ≤ state.len) :
    ∃ next done, Memset.setWords c state = some next ∧ Reached memory dst c done done next ∧
      done + next.len = state.len := by
  have hsmall : platform.opsiz ≤ 8 := by cases platform <;> decide
  have hgap := gap_lt state.dstp
  obtain ⟨aligned, halign, hplace, hdvd, hrest⟩ := hreached.alignLoop platform.opsiz hgap
  obtain ⟨eights, heights, hplace, hdvd, hsame⟩ :=
    hplace.eightWordsLoop (aligned.len / (platform.opsiz * 8)) hdvd
  have height : Reached memory dst c _ _ (lenMod (platform.opsiz * 8) eights) :=
    ⟨hplace.dstp, hplace.bytes, hplace.aligned⟩
  obtain ⟨words, hwords, hplace, hleft⟩ :=
    height.wordsLoop (eights.len % (platform.opsiz * 8) / platform.opsiz) hdvd
  refine ⟨lenMod platform.opsiz words, _, ?_, ⟨hplace.dstp, hplace.bytes, hplace.aligned⟩, ?_⟩
  · rw [Memset.setWords, halign, Option.map_some]
    simp only [heights, ← hwords]
    rfl
  · have hword := Nat.div_add_mod' (eights.len % (platform.opsiz * 8)) platform.opsiz
    have hline := Nat.div_add_mod' aligned.len (8 * platform.opsiz)
    have hwordsLen : words.len = eights.len % (platform.opsiz * 8) := hleft
    have hlast : (lenMod platform.opsiz words).len =
        eights.len % (platform.opsiz * 8) % platform.opsiz := by
      rw [← hwordsLen]
      rfl
    rw [hlast, Nat.add_assoc, hword, hsame, Nat.mul_comm platform.opsiz 8, Nat.add_assoc, hline,
      hrest]
    omega

/-- `memset` returns, sets the bytes from the address on to the value, changes no other
byte, and stores words at aligned addresses only. -/
theorem memset_spec (platform : Platform) (memory : platform.Address → Byte)
    (dstpp : platform.Address) (c : BitVec 32) (len : ℕ) :
    ∃ final, memset memory dstpp c len = some final ∧
      (∀ other, final.bytes other =
        if (other - dstpp).toNat < len then c.setWidth 8 else memory other) ∧
      ∀ a ∈ final.wordStores, platform.opsiz ∣ a.toNat := by
  have hstart : Reached memory dstpp (c.setWidth 8) 0 0
      { dstp := dstpp, len := len, bytes := memory, wordStores := [] } := by
    refine ⟨?_, ?_, fun a ha => absurd ha List.not_mem_nil⟩
    · exact (BitVec.add_zero dstpp).symm
    · funext other
      rfl
  have hfinish : ∀ {state : State platform} {done : ℕ},
      Reached memory dstpp (c.setWidth 8) done done state → done + state.len = len →
      (∀ other, (lastLoop (c.setWidth 8) state.len state).bytes other =
        if (other - dstpp).toNat < len then c.setWidth 8 else memory other) ∧
      ∀ a ∈ (lastLoop (c.setWidth 8) state.len state).wordStores, platform.opsiz ∣ a.toNat := by
    intro state done hreached hsum
    have hlast := hreached.lastLoop state.len
    rw [hsum] at hlast
    exact ⟨fun other => congrFun hlast.bytes other, hlast.aligned⟩
  rw [memset]
  by_cases hlen : 8 ≤ len
  · obtain ⟨state, done, hstate, hreached, hsum⟩ := hstart.setWords hlen
    rw [if_pos hlen, hstate]
    exact ⟨_, rfl, hfinish hreached hsum⟩
  · rw [if_neg hlen]
    exact ⟨_, rfl, hfinish hstart (Nat.zero_add len)⟩

end Prazor.Crt.Memset
