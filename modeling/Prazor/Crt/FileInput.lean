import Prazor.Crt.FileOutput

/-!
# Buffered input from a file

`fgetc`, `fgets` and `fread` share the pair `_r` and `_p` of a `FILE` and refill its
buffer at different conditions.  `__srefill` moves `_p` to the start of the buffer, and
the simulator stores the new bytes and their number, but nothing at the end of the file:
`_r` then stays what it was.

The memory from the buffer on is a function of the place relative to `data`.  What the
host's file has not given yet is a list.
-/

namespace Prazor.Crt.FileInput

open File (stdiolen)

/-- A `FILE` that is read: `_r` bytes are left from `_p` on.  Of the last two fields the
code has none: the number of bytes that the last refill stored, and whether only such bytes
have been taken. -/
structure Stream where
  r : ℤ
  p : ℤ
  data : ℤ → Byte
  rest : List Byte
  filled : ℤ
  inside : Bool

namespace Stream

/-- The bytes from `_p` on. -/
def bytes (fp : Stream) (length : ℤ) : List Byte :=
  (List.range length.toNat).map fun i : ℕ => fp.data (fp.p + i)

/-- Bytes from `_p` on are read. -/
def touch (fp : Stream) (length : ℤ) : Stream :=
  { fp with
    inside := fp.inside && (length ≤ 0 || (0 ≤ fp.p && fp.p + length ≤ fp.filled)) }

/-- `fp->_r -= length; fp->_p += length` -/
def advance (fp : Stream) (length : ℤ) : Stream :=
  { fp with r := fp.r - length, p := fp.p + length }

end Stream

/-- The `frefill` backdoor stores the bytes that it got and their number. -/
def Stream.store (fp : Stream) (buffer : List Byte) : Stream :=
  { fp with
    r := buffer.length
    data := fun i =>
      if 0 ≤ i ∧ i < buffer.length then buffer.getD i.toNat 0 else fp.data i
    filled := buffer.length }

/-- `__srefill`, which tells that there is no more input. -/
def srefill (fp : Stream) : Stream × Bool :=
  let fp := { fp with p := 0 }
  let buffer := fp.rest.take stdiolen
  if buffer = [] then (fp, true)
  else (Stream.store { fp with rest := fp.rest.drop stdiolen } buffer, false)

/-- What a call returns: a character or `EOF`, a line or `NULL`, the bytes of items and
their number. -/
inductive Answer where
  | char (c : ℤ)
  | line (text : Option (List Byte))
  | items (bytes : List Byte) (count : ℤ)
  deriving DecidableEq

def fgetc (fp : Stream) : Stream × Answer :=
  let fp := if fp.r = 0 then (srefill fp).1 else fp
  ((fp.touch 1).advance 1, .char (fp.data fp.p).toNat)

/-- The loop of `fgets`, for a number of turns. -/
def fgetsLoop : ℕ → ℕ → List Byte → Stream → Option (Stream × Option (List Byte))
  | 0, _, _, _ => none
  | turn + 1, n, s, fp =>
      if n = 0 then some (fp, some s)
      else
        let (fp, stop) := if fp.r ≤ 0 then srefill fp else (fp, false)
        if stop then some (fp, if s = [] then none else some s)
        else
          let len := min fp.r n
          -- `memchr` reads no further than the end of the line
          match (fp.bytes len).findIdx? fun c => c = 0x0A with
          | some k =>
              some ((fp.touch (k + 1)).advance (k + 1), some (s ++ fp.bytes (k + 1)))
          | none =>
              fgetsLoop turn (n - len.toNat) (s ++ fp.bytes len) ((fp.touch len).advance len)

/-- `fgets` with room for `n` bytes; a turn of its loop takes one byte at least. -/
def fgets (n : ℕ) (fp : Stream) : Option (Stream × Answer) :=
  if n = 0 then some (fp, .line none)
  else (fgetsLoop n (n - 1) [] fp).map fun (fp, text) => (fp, .line text)

/-- The loop of `fread`, for a number of turns. -/
def freadLoop (total size count : ℤ) :
    ℕ → ℤ → List Byte → Stream → Option (Stream × Answer)
  | 0, _, _, _ => none
  | turn + 1, resid, p, fp =>
      let r := fp.r
      if r < resid then
        let (next, stop) := srefill { fp.touch r with p := fp.p + r }
        if stop then some (next, .items (p ++ fp.bytes r) ((total - (resid - r)).tdiv size))
        else freadLoop total size count turn (resid - r) (p ++ fp.bytes r) next
      else some ((fp.touch resid).advance resid, .items (p ++ fp.bytes resid) count)

/-- `count * size`, a product of `int`s. -/
def product (count size : ℕ) : ℤ := Int.bmod (count * size : ℕ) (2 ^ 32)

/-- `fread`; a turn of its loop but the last refills the buffer. -/
def fread (size count : ℕ) (fp : Stream) : Option (Stream × Answer) :=
  let total := product count size
  if total = 0 then some (fp, .items [] 0)
  else
    let fp := if fp.r < 0 then { fp with r := 0 } else fp
    freadLoop total size count (fp.rest.length + 1) total [] fp

/-- The calls that read a file. -/
inductive Call where
  | fgetc
  | fgets (n : ℕ)
  | fread (size count : ℕ)

def step (fp : Stream) : Call → Option (Stream × Answer)
  | .fgetc => some (fgetc fp)
  | .fgets n => fgets n fp
  | .fread size count => fread size count fp

/-- A `FILE` before its buffer is filled, with what `malloc` left in the memory of it. -/
def unfilled (memory : ℤ → Byte) (content : List Byte) : Stream where
  r := 0
  p := 0
  data := memory
  rest := content
  filled := 0
  inside := true

/-- `fopen` for reading. -/
def fopen (memory : ℤ → Byte) (content : List Byte) : Stream :=
  (srefill (unfilled memory content)).1

/-! ## What the calls should do -/

/-- The first bytes of a text, no more than `n` and none after a newline. -/
def lineOf : ℕ → List Byte → List Byte
  | 0, _ => []
  | _, [] => []
  | n + 1, c :: rest => if c = 0x0A then [c] else c :: lineOf n rest

/-- A file is what is left of its content. -/
def read (left : List Byte) : Call → List Byte × Answer
  | .fgetc =>
      match left with
      | [] => ([], .char (-1))
      | c :: rest => (rest, .char c.toNat)
  | .fgets n =>
      if n = 0 ∨ left = [] then (left, .line none)
      else (left.drop (lineOf (n - 1) left).length, .line (some (lineOf (n - 1) left)))
  | .fread size count =>
      (left.drop (count * size),
        .items (left.take (count * size)) ((left.take (count * size)).length / size : ℕ))

/-- The bytes that an answer delivers. -/
def Answer.bytes : Answer → List Byte
  | .char c => if c = -1 then [] else [BitVec.ofInt 8 c]
  | .line text => text.getD []
  | .items bytes _ => bytes

/-- The number of bytes that are left to read. -/
def Stream.left (fp : Stream) : ℤ := fp.r + fp.rest.length

/-- A character is asked for only when one is left, a line without room for a character
too, and items are asked for that are all there, unless nothing is left. -/
def Available (fp : Stream) : Call → Prop
  | .fgetc => 0 < fp.left
  | .fgets n => n ≠ 1 ∨ 0 < fp.left
  | .fread size count =>
      count * size < 2 ^ 31 ∧ (fp.left = 0 ∨ (count * size : ℕ) ≤ fp.left)

instance decidableAvailable (fp : Stream) : (call : Call) → Decidable (Available fp call)
  | .fgetc => inferInstanceAs (Decidable (0 < fp.left))
  | .fgets n => inferInstanceAs (Decidable (n ≠ 1 ∨ 0 < fp.left))
  | .fread size count =>
      inferInstanceAs (Decidable (count * size < 2 ^ 31 ∧
        (fp.left = 0 ∨ (count * size : ℕ) ≤ fp.left)))

/-! ## The bytes of the buffer -/

/-- The bytes that are left are those of the buffer from `_p` on and those that the host's
file has not given. -/
structure Holds (fp : Stream) (left : List Byte) : Prop where
  r_nonneg : 0 ≤ fp.r
  p_nonneg : 0 ≤ fp.p
  filled : fp.p + fp.r ≤ fp.filled
  left_eq : left = fp.bytes fp.r ++ fp.rest
  inside : fp.inside = true

variable {fp : Stream} {left : List Byte}

@[simp]
theorem length_bytes (fp : Stream) (length : ℤ) : (fp.bytes length).length = length.toNat := by
  simp [Stream.bytes]

theorem take_bytes (fp : Stream) (k m : ℕ) : (fp.bytes (k + m : ℕ)).take k = fp.bytes k := by
  simp only [Stream.bytes, Int.toNat_natCast, ← List.map_take, List.take_range]
  rw [Nat.min_eq_left (Nat.le_add_right k m)]

theorem drop_bytes (fp : Stream) (k m : ℕ) :
    (fp.bytes (k + m : ℕ)).drop k = (fp.advance k).bytes m := by
  apply List.ext_getElem
  · rw [List.length_drop, length_bytes, length_bytes, Int.toNat_natCast, Int.toNat_natCast]
    exact Nat.add_sub_cancel_left k m
  · intro i hi hi'
    simp [Stream.bytes, Stream.advance, Int.add_assoc]

/-- Bytes that are left in the buffer are taken from it. -/
theorem Holds.take (hholds : Holds fp left) {k : ℕ} (hk : k ≤ fp.r) :
    fp.bytes k = left.take k ∧ Holds ((fp.touch k).advance k) (left.drop k) := by
  obtain ⟨m, hm⟩ : ∃ m : ℕ, fp.r = (k + m : ℕ) := ⟨(fp.r - k).toNat, by omega⟩
  have hlength : k ≤ (fp.bytes (k + m : ℕ)).length := by
    rw [length_bytes]
    omega
  have hleft := hholds.left_eq
  rw [hm] at hleft
  constructor
  · rw [hleft, List.take_append_of_le_length hlength, take_bytes]
  · constructor
    · simp only [Stream.advance, Stream.touch]
      omega
    · have hp := hholds.p_nonneg
      simp only [Stream.advance, Stream.touch]
      omega
    · have hfilled := hholds.filled
      simp only [Stream.advance, Stream.touch]
      omega
    · have hr : ((fp.touch k).advance k).r = m := by
        simp only [Stream.advance, Stream.touch]
        omega
      rw [hr, hleft, List.drop_append_of_le_length hlength, drop_bytes]
      rfl
    · have hp := hholds.p_nonneg
      have hfilled := hholds.filled
      simp only [Stream.advance, Stream.touch, hholds.inside, Bool.true_and, Bool.or_eq_true,
        Bool.and_eq_true, decide_eq_true_eq]
      omega

/-! ## Refilling -/

theorem bytes_store (hp : fp.p = 0) (buffer : List Byte) :
    (fp.store buffer).bytes buffer.length = buffer := by
  apply List.ext_getElem
  · simp
  · intro i hi hbound
    simp [Stream.bytes, Stream.store, hp, hbound]

theorem srefill_of_nil (hrest : fp.rest = []) : srefill fp = ({ fp with p := 0 }, true) := by
  simp [srefill, hrest]

/-- A refill stores the next bytes of the file. -/
theorem srefill_of_ne_nil (hinside : fp.inside = true) (hrest : fp.rest ≠ []) :
    ∃ next, srefill fp = (next, false) ∧ Holds next fp.rest ∧ 0 < next.r ∧
      next.rest.length < fp.rest.length := by
  have hbuffer : fp.rest.take stdiolen ≠ [] := by
    simp [stdiolen, hrest]
  have hpos : 0 < (fp.rest.take stdiolen).length := List.length_pos_iff.mpr hbuffer
  refine ⟨Stream.store { fp with p := 0, rest := fp.rest.drop stdiolen }
    (fp.rest.take stdiolen), if_neg hbuffer, ?_, Int.natCast_pos.mpr hpos, ?_⟩
  · constructor
    · exact Int.natCast_nonneg _
    · exact le_rfl
    · exact (Int.zero_add _).le
    · exact ((congrArg (· ++ fp.rest.drop stdiolen) (bytes_store rfl _)).trans
        (List.take_append_drop stdiolen fp.rest)).symm
    · exact hinside
  · have hlength := List.length_pos_iff.mpr hrest
    simp only [Stream.store, List.length_drop, stdiolen]
    omega

/-- When nothing is left in the buffer, the bytes that are left are those of the file. -/
theorem Holds.left_eq_rest (hholds : Holds fp left) (hr : fp.r = 0) : left = fp.rest := by
  rw [hholds.left_eq, hr]
  rfl

theorem Holds.length_left (hholds : Holds fp left) : fp.left = left.length := by
  have hr := hholds.r_nonneg
  rw [hholds.left_eq, List.length_append, length_bytes, Stream.left]
  omega

/-- Where the buffer is empty it is refilled if a byte is left. -/
theorem Holds.refill (hholds : Holds fp left) (hr : fp.r ≤ 0) (hleft : left ≠ []) :
    ∃ next, srefill fp = (next, false) ∧ Holds next left ∧ 0 < next.r := by
  have hrest := hholds.left_eq_rest (le_antisymm hr hholds.r_nonneg)
  rw [hrest] at hleft
  obtain ⟨next, hnext, hholds', hpos, _⟩ := srefill_of_ne_nil hholds.inside hleft
  exact ⟨next, hnext, hrest ▸ hholds', hpos⟩

/-- At the end of the file a refill only moves `_p`. -/
theorem Holds.refill_nil (hholds : Holds fp []) :
    fp.r = 0 ∧ ∃ next, srefill fp = (next, true) ∧ Holds next [] := by
  have hnil := hholds.left_eq
  have hlength := congrArg List.length hnil
  rw [List.length_nil, List.length_append, length_bytes] at hlength
  have hr : fp.r = 0 := by
    have := hholds.r_nonneg
    omega
  have hrest : fp.rest = [] := List.length_eq_zero_iff.mp (by omega)
  refine ⟨hr, { fp with p := 0 }, srefill_of_nil hrest, ?_⟩
  constructor
  · exact hholds.r_nonneg
  · exact le_rfl
  · have hp := hholds.p_nonneg
    have hfilled := hholds.filled
    simp only
    omega
  · simp [hr, hrest, Stream.bytes]
  · exact hholds.inside

/-! ## A character -/

theorem Holds.fgetc (hholds : Holds fp left) {c : Byte} (hleft : left.head? = some c) :
    (fgetc fp).2 = .char c.toNat ∧ Holds (fgetc fp).1 left.tail := by
  obtain ⟨next, hnext, hholds', hpos⟩ : ∃ next,
      (if fp.r = 0 then (srefill fp).1 else fp) = next ∧ Holds next left ∧ 0 < next.r := by
    by_cases hr : fp.r = 0
    · have hne : left ≠ [] := by
        rintro rfl
        cases hleft
      obtain ⟨next, hnext, hholds', hpos⟩ := hholds.refill hr.le hne
      exact ⟨next, by rw [if_pos hr, hnext], hholds', hpos⟩
    · exact ⟨fp, if_neg hr, hholds, lt_of_le_of_ne hholds.r_nonneg (Ne.symm hr)⟩
  obtain ⟨hbyte, hholds''⟩ := hholds'.take (k := 1) (by exact_mod_cast hpos)
  have hdata : next.data next.p = c := by
    cases left with
    | nil => cases hleft
    | cons d rest =>
        cases hleft
        simpa [Stream.bytes] using hbyte
  rw [FileInput.fgetc, hnext]
  exact ⟨by rw [hdata], by simpa using hholds''⟩

/-! ## A line -/

theorem lineOf_nil (n : ℕ) : lineOf n [] = [] := by
  cases n <;> rfl

/-- A newline among the first bytes ends the line. -/
theorem lineOf_of_findIdx {m n k : ℕ} {text : List Byte} (hm : m ≤ n)
    (hfind : (text.take m).findIdx? (fun c => c = 0x0A) = some k) :
    k < m ∧ lineOf n text = text.take (k + 1) := by
  induction m generalizing n k text with
  | zero => simp at hfind
  | succ m ih =>
      cases text with
      | nil => simp at hfind
      | cons c rest =>
          obtain ⟨n, rfl⟩ : ∃ n', n = n' + 1 := ⟨n - 1, by omega⟩
          rw [List.take_succ_cons, List.findIdx?_cons] at hfind
          by_cases hc : c = 0x0A
          · rw [if_pos (by simpa using hc), Option.some.injEq] at hfind
            rw [← hfind, lineOf, if_pos hc]
            exact ⟨Nat.succ_pos m, rfl⟩
          · rw [if_neg (by simpa using hc)] at hfind
            obtain ⟨j, hj, rfl⟩ := Option.map_eq_some_iff.mp hfind
            obtain ⟨hlt, hline⟩ := ih (Nat.le_of_succ_le_succ hm) hj
            rw [lineOf, if_neg hc, hline]
            exact ⟨Nat.succ_lt_succ hlt, rfl⟩

/-- Without a newline the line goes on behind them. -/
theorem lineOf_of_findIdx_none {m n : ℕ} {text : List Byte} (hm : m ≤ n)
    (hfind : (text.take m).findIdx? (fun c => c = 0x0A) = none) :
    lineOf n text = text.take m ++ lineOf (n - m) (text.drop m) := by
  induction m generalizing n text with
  | zero => simp
  | succ m ih =>
      cases text with
      | nil => simp [lineOf_nil]
      | cons c rest =>
          obtain ⟨n, rfl⟩ : ∃ n', n = n' + 1 := ⟨n - 1, by omega⟩
          rw [List.take_succ_cons, List.findIdx?_cons] at hfind
          by_cases hc : c = 0x0A
          · rw [if_pos (by simpa using hc)] at hfind
            cases hfind
          · rw [if_neg (by simpa using hc), Option.map_eq_none_iff] at hfind
            rw [lineOf, if_neg hc, ih (Nat.le_of_succ_le_succ hm) hfind, Nat.add_sub_add_right,
              List.take_succ_cons, List.drop_succ_cons, List.cons_append]

/-- The line is the start of the text. -/
theorem lineOf_append_drop (n : ℕ) (text : List Byte) :
    lineOf n text ++ text.drop (lineOf n text).length = text := by
  induction n, text using lineOf.induct with
  | case1 text => rfl
  | case2 n hn => rw [lineOf_nil, List.drop_nil, List.append_nil]
  | case3 n rest => rfl
  | case4 n c rest hc ih =>
      rw [lineOf, if_neg hc, List.length_cons, List.drop_succ_cons, List.cons_append, ih]

/-- The loop of `fgets` reads what is left of the line. -/
theorem Holds.fgetsLoop (hholds : Holds fp left) {turn n : ℕ} (hturn : n < turn)
    (s : List Byte) :
    ∃ next, fgetsLoop turn n s fp =
        some (next, if n ≠ 0 ∧ s = [] ∧ left = [] then none else some (s ++ lineOf n left)) ∧
      Holds next (left.drop (lineOf n left).length) := by
  induction turn generalizing n s fp left with
  | zero => cases hturn
  | succ turn ih =>
      rw [FileInput.fgetsLoop]
      by_cases hn : n = 0
      · subst hn
        exact ⟨fp, by simp [lineOf], by simpa [lineOf] using hholds⟩
      rw [if_neg hn]
      by_cases hleft : left = []
      · subst hleft
        obtain ⟨hr, next, hnext, hholds'⟩ := hholds.refill_nil
        refine ⟨next, ?_, by simpa [lineOf_nil] using hholds'⟩
        rw [if_pos hr.le, hnext]
        simp [hn, lineOf_nil]
      -- the buffer is not empty now
      obtain ⟨next, hnext, hholds', hpos⟩ : ∃ next,
          (if fp.r ≤ 0 then srefill fp else (fp, false)) = (next, false) ∧
            Holds next left ∧ 0 < next.r := by
        by_cases hr : fp.r ≤ 0
        · rw [if_pos hr]
          exact hholds.refill hr hleft
        · exact ⟨fp, if_neg hr, hholds, not_le.mp hr⟩
      rw [hnext]
      obtain ⟨len, hlen⟩ : ∃ len : ℕ, min next.r n = len := ⟨(min next.r n).toNat, by omega⟩
      have hbytes := (hholds'.take (k := len) (by omega)).1
      have htaken := (hholds'.take (k := len) (by omega)).2
      simp only [Bool.false_eq_true, if_false, hlen, hbytes, Int.toNat_natCast]
      rw [if_neg (by simp [hleft])]
      cases hfind : (left.take len).findIdx? fun c => decide (c = 0x0A) with
      | some k =>
          obtain ⟨hlt, hline⟩ := lineOf_of_findIdx (n := n) (by omega) hfind
          obtain ⟨hend, hholds''⟩ := hholds'.take (k := k + 1) (by omega)
          rw [Nat.cast_add, Nat.cast_one] at hend hholds''
          have hlength : k + 1 ≤ left.length := by
            have := hholds'.length_left
            rw [Stream.left] at this
            omega
          refine ⟨(next.touch (k + 1)).advance (k + 1), ?_, ?_⟩
          · dsimp only
            rw [hend, hline]
          · rwa [hline, List.length_take, Nat.min_eq_left hlength]
      | none =>
          have hline := lineOf_of_findIdx_none (n := n) (by omega) hfind
          obtain ⟨final, hfinal, hholds''⟩ :=
            ih htaken (n := n - len) (by omega) (s ++ left.take len)
          have hne : s ++ left.take len ≠ [] := by
            simp [hleft]
            omega
          have hlength : len ≤ left.length := by
            have := hholds'.length_left
            rw [Stream.left] at this
            omega
          refine ⟨final, ?_, ?_⟩
          · dsimp only
            rw [hfinal, hline, if_neg (by simp [hne]), List.append_assoc]
          · rwa [hline, List.length_append, List.length_take, Nat.min_eq_left hlength,
              ← List.drop_drop]

/-! ## Items -/

theorem product_eq {count size : ℕ} (hsmall : count * size < 2 ^ 31) :
    product count size = (count * size : ℕ) := by
  apply Int.bmod_eq_of_le <;> omega

/-- The loop of `fread` reads the items when they are there. -/
theorem Holds.freadLoop (hholds : Holds fp left) (total size count : ℤ) {turn k : ℕ}
    (hturn : fp.rest.length < turn) (hk : k ≤ left.length) (p : List Byte) :
    ∃ next, freadLoop total size count turn k p fp =
        some (next, .items (p ++ left.take k) count) ∧ Holds next (left.drop k) := by
  induction turn generalizing k p fp left with
  | zero => cases hturn
  | succ turn ih =>
      rw [FileInput.freadLoop]
      obtain ⟨r, hr⟩ := Int.eq_ofNat_of_zero_le hholds.r_nonneg
      have hlength := hholds.length_left
      rw [Stream.left, hr] at hlength
      by_cases hmore : fp.r < k
      · rw [if_pos hmore]
        obtain ⟨hbytes, htaken⟩ := hholds.take (k := r) (by omega)
        have hrest : left.drop r = fp.rest := by
          rw [htaken.left_eq_rest (by simp [Stream.advance, Stream.touch, hr])]
          rfl
        have hne : fp.rest ≠ [] := by
          apply List.ne_nil_of_length_pos
          omega
        have hinside : Stream.inside { fp.touch fp.r with p := fp.p + fp.r } = true := by
          rw [hr]
          exact htaken.inside
        obtain ⟨next, hnext, hholds', _, hshorter⟩ := srefill_of_ne_nil hinside hne
        obtain ⟨final, hfinal, hholds''⟩ := ih hholds' (k := k - r)
          (Nat.lt_of_lt_of_le hshorter (Nat.le_of_lt_succ hturn)) (by
            change k - r ≤ fp.rest.length
            omega) (p ++ left.take r)
        have hresid : (k : ℤ) - r = (k - r : ℕ) := by omega
        have htake : left.take k = left.take r ++ fp.rest.take (k - r) := by
          rw [← hrest, ← List.take_add, Nat.add_sub_cancel' (by omega)]
        have hdrop : left.drop k = fp.rest.drop (k - r) := by
          rw [← hrest, List.drop_drop, Nat.add_sub_cancel' (by omega)]
        refine ⟨final, ?_, ?_⟩
        · rw [hnext, hr, hbytes, hresid, htake, ← List.append_assoc]
          exact hfinal
        · rw [hdrop]
          exact hholds''
      · rw [if_neg hmore]
        obtain ⟨hbytes, htaken⟩ := hholds.take (k := k) (by omega)
        rw [hbytes]
        exact ⟨_, rfl, htaken⟩

/-- At the end of the file the loop ends with nothing read. -/
theorem Holds.freadLoop_nil (hholds : Holds fp []) (size count : ℤ) {turn total : ℕ}
    (htotal : 0 < total) :
    ∃ next, FileInput.freadLoop total size count (turn + 1) total [] fp =
        some (next, .items [] 0) ∧ Holds next [] := by
  have hr := hholds.refill_nil.1
  have htouched : Holds { fp.touch fp.r with p := fp.p + fp.r } [] := by
    have htaken := (hholds.take (k := 0) (by omega)).2
    simpa [Stream.advance, Stream.touch, hr] using htaken
  obtain ⟨_, next, hnext, hholds'⟩ := htouched.refill_nil
  refine ⟨next, ?_, hholds'⟩
  rw [FileInput.freadLoop, if_pos (by omega), hnext, hr]
  simp [Stream.bytes]

/-! ## Runs -/

/-- A call for what is available answers as a read of what is left does. -/
theorem Holds.step (hholds : Holds fp left) {call : Call} (havailable : Available fp call) :
    ∃ next, step fp call = some (next, (read left call).2) ∧ Holds next (read left call).1 := by
  have hlength := hholds.length_left
  cases call with
  | fgetc =>
      cases left with
      | nil =>
          have hpos : 0 < fp.left := havailable
          simp [hlength] at hpos
      | cons c rest =>
          obtain ⟨hanswer, hholds'⟩ := hholds.fgetc (c := c) rfl
          exact ⟨(FileInput.fgetc fp).1, congrArg some (Prod.ext rfl hanswer), hholds'⟩
  | fgets n =>
      rw [FileInput.step, fgets]
      by_cases hn : n = 0
      · exact ⟨fp, by simp [hn, read], by simpa [hn, read] using hholds⟩
      have hturn : n - 1 < n := by omega
      obtain ⟨next, hnext, hholds'⟩ := hholds.fgetsLoop hturn []
      by_cases hleft : left = []
      · have hroom : n ≠ 1 ∨ 0 < fp.left := havailable
        subst hleft
        have hmore : n - 1 ≠ 0 := by
          simp only [hlength, List.length_nil] at hroom
          omega
        rw [if_neg hn, hnext, if_pos ⟨hmore, rfl, rfl⟩, read, if_pos (Or.inr rfl)]
        rw [List.drop_nil] at hholds'
        exact ⟨next, rfl, hholds'⟩
      · rw [if_neg hn, hnext, if_neg (fun h => hleft h.2.2), read,
          if_neg (not_or.mpr ⟨hn, hleft⟩), List.nil_append]
        exact ⟨next, rfl, hholds'⟩
  | fread size count =>
      rw [Available] at havailable
      obtain ⟨hsmall, hthere⟩ := havailable
      have htotal := product_eq hsmall
      rw [FileInput.step, fread, htotal]
      by_cases hzero : count * size = 0
      · rw [if_pos (by exact_mod_cast hzero)]
        exact ⟨fp, by simp [read, hzero], by simpa [read, hzero] using hholds⟩
      rw [if_neg (by exact_mod_cast hzero)]
      dsimp only
      rw [if_neg (not_lt.mpr hholds.r_nonneg)]
      rcases hthere with hnone | henough
      · obtain rfl : left = [] := by
          rw [hlength] at hnone
          exact List.length_eq_zero_iff.mp (by exact_mod_cast hnone)
        obtain ⟨next, hnext, hholds'⟩ :=
          @Holds.freadLoop_nil fp hholds size count fp.rest.length _ (Nat.pos_of_ne_zero hzero)
        exact ⟨next, by simpa [read] using hnext, by simpa [read] using hholds'⟩
      · rw [hlength] at henough
        have hle : count * size ≤ left.length := by exact_mod_cast henough
        obtain ⟨next, hnext, hholds'⟩ := hholds.freadLoop (count * size : ℕ) size count
          (Nat.lt_succ_self _) hle []
        have hsize : 0 < size := Nat.pos_of_ne_zero (right_ne_zero_of_mul hzero)
        have hcount : (left.take (count * size)).length / size = count := by
          rw [List.length_take, Nat.min_eq_left hle, Nat.mul_div_cancel count hsize]
        refine ⟨next, ?_, hholds'⟩
        rw [read, hcount]
        simpa using hnext

/-- What `fopen` leaves is the content of the file. -/
theorem holds_fopen (memory : ℤ → Byte) (content : List Byte) :
    Holds (fopen memory content) content := by
  have hunfilled : Holds (unfilled memory content) content := by
    constructor <;> first | exact le_rfl | rfl
  by_cases hcontent : content = []
  · subst hcontent
    obtain ⟨_, next, hnext, hholds⟩ := hunfilled.refill_nil
    rw [fopen, hnext]
    exact hholds
  · obtain ⟨next, hnext, hholds, _⟩ := hunfilled.refill le_rfl hcontent
    rw [fopen, hnext]
    exact hholds

/-- A read delivers the start of what is left. -/
theorem bytes_read (left : List Byte) (call : Call) :
    (read left call).2.bytes ++ (read left call).1 = left := by
  cases call with
  | fgetc =>
      cases left with
      | nil => rfl
      | cons c rest =>
          have hchar : ((c.toNat : ℕ) : ℤ) ≠ -1 := by omega
          simp [read, Answer.bytes, hchar]
  | fgets n =>
      rw [read]
      split
      · rfl
      · exact lineOf_append_drop (n - 1) left
  | fread size count => exact List.take_append_drop (count * size) left

/-- The reads deliver the content in order, each byte once. -/
theorem bytes_outputs (content : List Byte) (calls : List Call) :
    (Machine.outputs read content calls).flatMap Answer.bytes ++
      Machine.run read content calls = content := by
  induction calls generalizing content with
  | nil => rfl
  | cons call rest ih =>
      rw [Machine.outputs_cons, Machine.run_cons, List.flatMap_cons, List.append_assoc, ih,
        bytes_read]

/-- Calls for what is available answer as reads of the content, which deliver its bytes in
order, and take bytes from the filled part of the buffer only. -/
theorem reads_in_order (memory : ℤ → Byte) (content : List Byte) {calls : List Call}
    (havailable : Guarded.Meets (Guarded.advance step) Available (fopen memory content)
      calls) :
    ∃ final, Guarded.serve step (fopen memory content) calls =
        some (final, Machine.outputs read content calls) ∧
      final.inside = true ∧ final.left = (Machine.run read content calls).length ∧
      (Machine.outputs read content calls).flatMap Answer.bytes ++
        Machine.run read content calls = content := by
  obtain ⟨final, hfinal, hholds⟩ := Guarded.serve_refines
    (fun fp left call hholds hcall => hholds.step hcall) (holds_fopen memory content)
    havailable
  exact ⟨final, hfinal, hholds.inside, hholds.length_left, bytes_outputs content calls⟩

/-- A character, a line, items, and two lines at the end of the file. -/
theorem reads_in_order_text :
    ∃ final, Guarded.serve step (fopen (fun _ => 0) [0x61, 0x62, 0x0A, 0x63, 0x64])
        [.fgetc, .fgets 9, .fread 1 2, .fgets 9, .fread 1 1, .fgets 2] =
        some (final, [.char 0x61, .line (some [0x62, 0x0A]), .items [0x63, 0x64] 2,
          .line none, .items [] 0, .line none]) ∧
      final.inside = true := by
  have havailable : Guarded.Meets (Guarded.advance step) Available
      (fopen (fun _ => 0) [0x61, 0x62, 0x0A, 0x63, 0x64])
      [.fgetc, .fgets 9, .fread 1 2, .fgets 9, .fread 1 1, .fgets 2] := by
    decide
  obtain ⟨final, hfinal, hinside, _⟩ :=
    reads_in_order (fun _ => 0) [0x61, 0x62, 0x0A, 0x63, 0x64] havailable
  exact ⟨final, hfinal, hinside⟩

/-- At the end of a file of one byte `fgetc` delivers that byte again; so does `fgetc` after
two items were asked for, and `fgets` with room for the NUL alone does not return `NULL`. -/
theorem not_reads_in_order :
    (Guarded.serve step (fopen (fun _ => 0) [0x61]) [.fgetc, .fgetc]).map (·.2) =
        some [.char 0x61, .char 0x61] ∧
      Machine.outputs read [0x61] [.fgetc, .fgetc] = [.char 0x61, .char (-1)] ∧
      (Guarded.serve step (fopen (fun _ => 0) [0x61]) [.fread 1 2, .fgetc]).map (·.2) =
        some [.items [0x61] 1, .char 0x61] ∧
      Machine.outputs read [0x61] [.fread 1 2, .fgetc] = [.items [0x61] 1, .char (-1)] ∧
      (Guarded.serve step (fopen (fun _ => 0) []) [.fgets 1]).map (·.2) =
        some [.line (some [])] ∧
      Machine.outputs read [] [.fgets 1] = [.line none] := by
  decide

end Prazor.Crt.FileInput
