import Prazor.Core.Payload
import Prazor.Core.AppendStreams

/-!
# Arguments and input behind the back door

`argv_backdoor_setup` lays the arguments of a run, or its input, out in a small memory that the
simulated program reads: four tables of pointers, for cores of either endianness and of 32 or 64
bits, and the strings twice.  The bytes for a big-endian core are at their address with the low
three bits turned over.

Every string is where it belongs and every table has its pointers, and a pointer is made with an
OR: it leads to its string just when the string begins in an even block of 256 bytes, counted from
the first string.  A write behind the end of the allocated memory has no result here.
-/

namespace Prazor.Tenos

/-- One of the positions that `put` advances: `a0[d0 * 2 + d1]` or `a1[d0]`. -/
inductive Position where
  | a0 (d0 d1 : Fin 2)
  | a1 (d0 : Fin 2)
  deriving DecidableEq

/-- `argv_backdoor_setup` -/
structure ArgvBackdoor where
  argvRam : Buffer
  position : Position → ℕ
  argc : ℕ

namespace ArgvBackdoor

def socdamArgvBase64LE : BitVec 64 := 0xFFFFFFFFFFFE0100
def socdamArgvBase64BE : BitVec 64 := 0xFFFFFFFFFFFE8100
def socdamStdinBase64LE : BitVec 64 := 0xFFFFFFFFFFFD0100
def socdamStdinBase64BE : BitVec 64 := 0xFFFFFFFFFFFD8100

def memsize : ℕ := 65536
def dsize : ℕ := memsize / 2
def l : ℕ := dsize * 2

/-- The bytes of a big-endian core are turned over in each word of 64 bits. -/
def flip (be : Bool) (p : ℕ) : ℕ :=
  p ^^^ (if be then 7 else 0)

/-- What `put` does where its assertion holds. -/
def store (backdoor : ArgvBackdoor) (v : Byte) (p : Position) (be : Bool) : ArgvBackdoor :=
  { backdoor with
    argvRam := Function.update backdoor.argvRam (flip be (backdoor.position p)) v
    position := Function.update backdoor.position p (backdoor.position p + 1) }

/-- `put` -/
def put (backdoor : ArgvBackdoor) (v : Byte) (p : Position) (be : Bool) : Option ArgvBackdoor :=
  if backdoor.position p < l * 2 ∧ flip be (backdoor.position p) < memsize then
    some (backdoor.store v p be)
  else none

/-- A loop that puts one byte after the other. -/
def putAll (backdoor : ArgvBackdoor) (bytes : List Byte) (p : Position) (be : Bool) :
    Option ArgvBackdoor :=
  bytes.foldlM (fun backdoor v => backdoor.put v p be) backdoor

/-- The first positions, which `init` sets. -/
def base : Position → ℕ
  | .a0 d0 d1 => 0x100 * d1 + dsize * d0
  | .a1 d0 => 0x300 + dsize * d0

/-- `init`: the memory keeps what was in it. -/
def init (ram : Buffer) (argc : ℕ) : ArgvBackdoor :=
  ⟨ram, base, argc⟩

/-- `be` -/
def bigEndian (d0 : Fin 2) : Bool :=
  decide (0 < d0)

/-- `sz` -/
def pointerSize (d1 : Fin 2) : ℕ :=
  if 0 < d1 then 8 else 4

/-- The bytes of a pointer, in the order in which `insert` puts them. -/
def pointerBytes (d0 d1 : Fin 2) (pointer : BitVec 64) : List Byte :=
  (List.range (pointerSize d1)).map fun q =>
    (pointer >>> (8 * if bigEndian d0 then pointerSize d1 - 1 - q else q)).setWidth 8

/-- `a1[d0] | hi` -/
def pointer (hi : Fin 2 → BitVec 64) (d0 : Fin 2) (address : ℕ) : BitVec 64 :=
  BitVec.ofNat 64 address ||| hi d0

/-- The body of the outer loop of `insert`. -/
def insertSide (hi : Fin 2 → BitVec 64) (bytes : List Byte) (backdoor : ArgvBackdoor)
    (d0 : Fin 2) : Option ArgvBackdoor := do
  let value := pointer hi d0 (backdoor.position (.a1 d0))
  let backdoor ← backdoor.putAll (pointerBytes d0 0 value) (.a0 d0 0) (bigEndian d0)
  let backdoor ← backdoor.putAll (pointerBytes d0 1 value) (.a0 d0 1) (bigEndian d0)
  let backdoor ← backdoor.putAll bytes (.a1 d0) (bigEndian d0)
  if backdoor.position (.a1 d0) < 2 * l then some backdoor else none

/-- `insert`, with its assertion.  The upper bits of a pointer are `LE` for side 0 and `BE` for
side 1. -/
def insert (hi : Fin 2 → BitVec 64) (ends : Bool) (backdoor : ArgvBackdoor) (s1 : List Byte) :
    Option ArgvBackdoor :=
  if backdoor.position (.a0 0 0) < 0x100 then
    [0, 1].foldlM (insertSide hi (s1 ++ if ends then [0] else [])) backdoor
  else none

/-- `SOCDAM_ARGV_BASE_64_LE` and `SOCDAM_ARGV_BASE_64_BE` -/
def argvBase (d0 : Fin 2) : BitVec 64 :=
  if bigEndian d0 then socdamArgvBase64BE else socdamArgvBase64LE

/-- `SOCDAM_STDIN_BASE_64_LE` and `SOCDAM_STDIN_BASE_64_BE` -/
def stdinBase (d0 : Fin 2) : BitVec 64 :=
  if bigEndian d0 then socdamStdinBase64BE else socdamStdinBase64LE

/-- The constructor for arguments, each the list of its bytes before the NUL. -/
def ofArguments (ram : Buffer) (imageName : List Byte) (argv : List (List Byte)) :
    Option ArgvBackdoor :=
  (imageName :: argv).foldlM (insert argvBase true) (init ram (argv.length + 1))

/-- `u32_t read32(int a)` -/
def read32 (backdoor : ArgvBackdoor) (a : ℕ) : BitVec 32 :=
  Bytes.load32 fun k => backdoor.argvRam (4 * (a / 4) + k)

/-- `u64_t read64(int a)` -/
def read64 (backdoor : ArgvBackdoor) (a : ℕ) : BitVec 64 :=
  Bytes.load64 fun k => backdoor.argvRam (8 * (a / 8) + k)

/-- `u32_t read32_be(int a)` -/
def read32Be (backdoor : ArgvBackdoor) (a : ℕ) : BitVec 32 :=
  if a &&& 4 ≠ 0 then (backdoor.read64 a).setWidth 32
  else (backdoor.read64 a >>> 32).setWidth 32

/-- `fgets`: up to `n` characters, and none after a newline.  The second is what is left. -/
def fgets : ℕ → List Byte → List Byte × List Byte
  | 0, input => ([], input)
  | _ + 1, [] => ([], [])
  | n + 1, c :: input =>
      if c = 0x0A then ([c], input) else (c :: (fgets n input).1, (fgets n input).2)

theorem fgets_append (n : ℕ) (input : List Byte) :
    (fgets n input).1 ++ (fgets n input).2 = input := by
  fun_induction fgets n input with
  | case1 => rfl
  | case2 => rfl
  | case3 => rfl
  | case4 n c input hc ih => rw [List.cons_append, ih]

theorem length_fgets (n : ℕ) (c : Byte) (input : List Byte) :
    (fgets (n + 1) (c :: input)).2.length < (c :: input).length := by
  rw [fgets, List.length_cons]
  by_cases hc : c = 0x0A
  · rw [if_pos hc]
    exact Nat.lt_succ_self _
  · have htail := congrArg List.length (fgets_append n input)
    rw [List.length_append] at htail
    rw [if_neg hc]
    show (fgets n input).2.length < input.length + 1
    omega

/-- The buffers that `fgets` fills until the end of the input. -/
def buffers : List Byte → List (List Byte)
  | [] => []
  | c :: input => (fgets 254 (c :: input)).1 :: buffers (fgets 254 (c :: input)).2
termination_by input => input.length
decreasing_by exact length_fgets 253 c input

/-- The constructor for input.  A string of the buffer ends before a NUL in it. -/
def ofInput (ram : Buffer) (input : List Byte) : Option ArgvBackdoor :=
  ((buffers input).map fun buffer => buffer.takeWhile fun c => c ≠ 0).foldlM
    (insert stdinBase false) (init ram 0)

/-! ## The plan of the memory -/

theorem flip_eq (be : Bool) (p : ℕ) :
    flip be p = if be then 8 * (p / 8) + (7 - p % 8) else p := by
  cases be with
  | false => exact Nat.xor_zero p
  | true =>
      have hdiv : (p ^^^ 7) / 2 ^ 3 = p / 2 ^ 3 := by
        rw [Nat.xor_div_two_pow]
        exact Nat.xor_zero _
      have hmod : (p ^^^ 7) % 2 ^ 3 = 7 - p % 8 := by
        have hlow : ∀ r < 8, r ^^^ 7 = 7 - r := by decide
        rw [Nat.xor_mod_two_pow, ← hlow _ (Nat.mod_lt p (by decide))]
      show p ^^^ 7 = 8 * (p / 8) + (7 - p % 8)
      omega

theorem flip_lt_iff (be : Bool) (p : ℕ) : flip be p < memsize ↔ p < memsize := by
  rw [flip_eq]
  cases be with
  | false => rfl
  | true =>
      show 8 * (p / 8) + (7 - p % 8) < 65536 ↔ p < 65536
      omega

/-- The side a position belongs to. -/
def side : Position → Fin 2
  | .a0 d0 _ => d0
  | .a1 d0 => d0

/-- How many bytes there is room for from a first position on. -/
def room : Position → ℕ
  | .a0 _ d1 => 64 * pointerSize d1
  | .a1 _ => 0x7D00

theorem aligned (p : Position) : base p % 8 = 0 ∧ room p % 8 = 0 := by
  cases p with
  | a0 d0 d1 => revert d0 d1; decide
  | a1 d0 => revert d0; decide

/-- No two regions have an address in common. -/
theorem regions_apart {s t : Position} (hne : s ≠ t) :
    base s + room s ≤ base t ∨ base t + room t ≤ base s := by
  cases s with
  | a0 d0 d1 =>
      cases t with
      | a0 e0 e1 => revert d0 d1 e0 e1; decide
      | a1 e0 => clear hne; revert d0 d1 e0; decide
  | a1 d0 =>
      cases t with
      | a0 e0 e1 => clear hne; revert d0 e0 e1; decide
      | a1 e0 => revert d0 e0; decide

/-- A byte of a region is turned over within it. -/
theorem flip_within (p : Position) {i : ℕ} (hi : i < room p) :
    base p ≤ flip (bigEndian (side p)) (base p + i) ∧
      flip (bigEndian (side p)) (base p + i) < base p + room p := by
  obtain ⟨hbase, hroom⟩ := aligned p
  rw [flip_eq]
  cases bigEndian (side p) with
  | false => exact ⟨Nat.le_add_right _ _, Nat.add_lt_add_left hi _⟩
  | true =>
      show base p ≤ 8 * ((base p + i) / 8) + (7 - (base p + i) % 8) ∧
        8 * ((base p + i) / 8) + (7 - (base p + i) % 8) < base p + room p
      omega

/-- The six regions. -/
def plan : StreamPlan Position ℕ where
  cell p i := flip (bigEndian (side p)) (base p + i)
  room := room
  apart s t i j hi hj hcell := by
    have hs := flip_within s hi
    have ht := flip_within t hj
    have hst : s = t := by
      by_contra hne
      have hregions := regions_apart hne
      omega
    subst hst
    refine ⟨rfl, ?_⟩
    simp only [flip_eq] at hcell
    cases hside : bigEndian (side s) with
    | false => simpa [hside] using hcell
    | true =>
        simp only [hside, if_true] at hcell
        omega

/-! ## One byte after the other -/

section Puts

variable {backdoor backdoor' : ArgvBackdoor} {p : Position} {v : Byte} {be : Bool}
  {contents : Position → List Byte} {bytes : List Byte}

@[simp]
theorem store_position (backdoor : ArgvBackdoor) (v : Byte) (p : Position) (be : Bool) :
    (backdoor.store v p be).position =
      Function.update backdoor.position p (backdoor.position p + 1) := rfl

@[simp]
theorem store_argc (backdoor : ArgvBackdoor) (v : Byte) (p : Position) (be : Bool) :
    (backdoor.store v p be).argc = backdoor.argc := rfl

theorem put_of_lt (hlt : backdoor.position p < memsize) (v : Byte) (be : Bool) :
    backdoor.put v p be = some (backdoor.store v p be) := by
  have hl : backdoor.position p < l * 2 := hlt.trans (by decide)
  exact if_pos ⟨hl, (flip_lt_iff be _).mpr hlt⟩

theorem put_of_ge (hge : memsize ≤ backdoor.position p) (v : Byte) (be : Bool) :
    backdoor.put v p be = none :=
  if_neg fun hput => Nat.not_lt.mpr hge ((flip_lt_iff be _).mp hput.2)

/-- The bytes fit in the memory if they are put, and one position moves. -/
theorem position_putAll (hput : backdoor.putAll bytes p be = some backdoor') :
    backdoor'.position =
        Function.update backdoor.position p (backdoor.position p + bytes.length) ∧
      (bytes = [] ∨ backdoor.position p + bytes.length ≤ memsize) := by
  induction bytes generalizing backdoor with
  | nil =>
      cases hput
      exact ⟨(Function.update_eq_self p _).symm, .inl rfl⟩
  | cons v bytes ih =>
      rw [putAll, List.foldlM_cons] at hput
      by_cases hlt : backdoor.position p < memsize
      · rw [put_of_lt hlt] at hput
        obtain ⟨hposition, hfits⟩ := ih hput
        rw [store_position, Function.update_self, Function.update_idem] at hposition
        rw [store_position, Function.update_self] at hfits
        rw [List.length_cons]
        refine ⟨?_, .inr ?_⟩
        · rw [hposition]
          congr 1
          omega
        · rcases hfits with rfl | hfits
          · exact hlt
          · omega
      · rw [put_of_ge (Nat.not_lt.mp hlt)] at hput
        contradiction

/-- The memory has the bytes put at each position. -/
structure Laid (backdoor : ArgvBackdoor) (contents : Position → List Byte) : Prop where
  holds : plan.Holds backdoor.argvRam contents
  position : ∀ p, backdoor.position p = base p + (contents p).length

theorem base_add_room_le (p : Position) : base p + room p ≤ memsize := by
  cases p with
  | a0 d0 d1 => revert d0 d1; decide
  | a1 d0 => revert d0; decide

theorem Laid.putAll (hlaid : Laid backdoor contents) (bytes : List Byte) (p : Position)
    (hroom : (contents p).length + bytes.length ≤ room p) :
    ∃ backdoor', backdoor.putAll bytes p (bigEndian (side p)) = some backdoor' ∧
      Laid backdoor' (Function.update contents p (contents p ++ bytes)) ∧
      backdoor'.argc = backdoor.argc := by
  induction bytes generalizing backdoor contents with
  | nil =>
      refine ⟨backdoor, rfl, ?_, rfl⟩
      rw [List.append_nil, Function.update_eq_self]
      exact hlaid
  | cons v bytes ih =>
      rw [List.length_cons] at hroom
      have hposition := hlaid.position p
      have hlt : backdoor.position p < memsize := by
        have hmemory := base_add_room_le p
        omega
      have hone := hlaid.holds.append_one v (show _ < plan.room p by show _ < room p; omega)
      rw [ArgvBackdoor.putAll, List.foldlM_cons, put_of_lt hlt]
      have hnext : Laid (backdoor.store v p (bigEndian (side p)))
          (Function.update contents p (contents p ++ [v])) := by
        constructor
        · rw [store, hposition]
          exact hone
        · intro q
          by_cases hq : q = p
          · subst hq
            simp [hposition, Nat.add_assoc]
          · simpa [hq] using hlaid.position q
      obtain ⟨backdoor', hput, hlaid', hargc⟩ := ih hnext (by simp; omega)
      refine ⟨backdoor', hput, ?_, hargc⟩
      rw [Function.update_self, Function.update_idem, List.append_assoc] at hlaid'
      exact hlaid'

end Puts

/-! ## One string after the other -/

/-- Where the `i`-th string begins among the strings. -/
def offset (strings : List (List Byte)) (i : ℕ) : ℕ :=
  (strings.take i).flatten.length

/-- What has been put at each position once the strings are in. -/
def contents (hi : Fin 2 → BitVec 64) (strings : List (List Byte)) : Position → List Byte
  | .a0 d0 d1 => (List.range strings.length).flatMap fun i =>
      pointerBytes d0 d1 (pointer hi d0 (base (.a1 d0) + offset strings i))
  | .a1 _ => strings.flatten

section Inserts

variable {hi : Fin 2 → BitVec 64} {ends : Bool} {backdoor backdoor' : ArgvBackdoor}
  {strings : List (List Byte)} {bytes : List Byte}

@[simp]
theorem length_pointerBytes (d0 d1 : Fin 2) (value : BitVec 64) :
    (pointerBytes d0 d1 value).length = pointerSize d1 := by
  rw [pointerBytes, List.length_map, List.length_range]

theorem length_contents (d0 d1 : Fin 2) :
    (contents hi strings (.a0 d0 d1)).length = strings.length * pointerSize d1 := by
  simp [contents, List.length_flatMap]

/-- Another string adds a pointer to each table. -/
theorem contents_append (hi : Fin 2 → BitVec 64) (strings : List (List Byte)) (bytes : List Byte)
    (d0 d1 : Fin 2) :
    contents hi (strings ++ [bytes]) (.a0 d0 d1) = contents hi strings (.a0 d0 d1) ++
      pointerBytes d0 d1 (pointer hi d0 (base (.a1 d0) + strings.flatten.length)) := by
  have hearlier : ∀ i ∈ List.range strings.length,
      offset (strings ++ [bytes]) i = offset strings i := by
    intro i hi
    rw [offset, offset, List.take_append_of_le_length (List.mem_range.mp hi).le]
  have hlast : offset (strings ++ [bytes]) strings.length = strings.flatten.length := by
    rw [offset, List.take_left]
  simp only [contents, List.length_append, List.length_singleton, List.range_succ,
    List.flatMap_append, List.flatMap_singleton, hlast]
  congr 1
  apply List.flatMap_congr
  intro i hmem
  rw [hearlier i hmem]

/-- A side that is done has the string too, and the other side is as before. -/
theorem insertSide_laid {held : Position → List Byte} (hlaid : Laid backdoor held) (d0 : Fin 2)
    (hheld : ∀ p, side p = d0 → held p = contents hi strings p) (hcount : strings.length < 64)
    (hroom : strings.flatten.length + bytes.length ≤ 0x7D00) :
    ∃ backdoor', insertSide hi bytes backdoor d0 = some backdoor' ∧
      Laid backdoor' (fun p =>
        if side p = d0 then contents hi (strings ++ [bytes]) p else held p) ∧
      backdoor'.argc = backdoor.argc := by
  have htables : ∀ d1, held (.a0 d0 d1) = contents hi strings (.a0 d0 d1) :=
    fun _ => hheld _ rfl
  have hstrings : held (.a1 d0) = strings.flatten := hheld _ rfl
  have hstart : backdoor.position (.a1 d0) = base (.a1 d0) + strings.flatten.length := by
    rw [hlaid.position, hstrings]
  have htable : ∀ d1, (held (.a0 d0 d1)).length + pointerSize d1 ≤ room (.a0 d0 d1) := by
    intro d1
    rw [htables, length_contents]
    show strings.length * pointerSize d1 + pointerSize d1 ≤ 64 * pointerSize d1
    calc strings.length * pointerSize d1 + pointerSize d1
      _ = (strings.length + 1) * pointerSize d1 := (Nat.succ_mul _ _).symm
      _ ≤ 64 * pointerSize d1 := Nat.mul_le_mul_right _ hcount
  obtain ⟨narrow, hnarrow, hlaid₁, hargc₁⟩ :=
    hlaid.putAll (pointerBytes d0 0 (pointer hi d0 (backdoor.position (.a1 d0)))) (.a0 d0 0)
      (by rw [length_pointerBytes]; exact htable 0)
  obtain ⟨wide, hwide, hlaid₂, hargc₂⟩ :=
    hlaid₁.putAll (pointerBytes d0 1 (pointer hi d0 (backdoor.position (.a1 d0)))) (.a0 d0 1)
      (by rw [length_pointerBytes]; simpa using htable 1)
  obtain ⟨done, hdone, hlaid₃, hargc₃⟩ :=
    hlaid₂.putAll bytes (.a1 d0) (by simpa [hstrings, room] using hroom)
  refine ⟨done, ?_, ?_, hargc₃.trans (hargc₂.trans hargc₁)⟩
  · have hlimit : done.position (.a1 d0) < 2 * l := by
      have hfits := hlaid₃.holds.fits (.a1 d0)
      have hmemory := base_add_room_le (.a1 d0)
      rw [hlaid₃.position]
      show base (.a1 d0) + _ < 2 * memsize
      change _ ≤ room (.a1 d0) at hfits
      have hpos : 0 < memsize := by decide
      omega
    simp only [side] at hnarrow hwide hdone
    simp [insertSide, hnarrow, hwide, hdone, hlimit]
  · convert hlaid₃ using 1
    funext p
    cases p with
    | a0 e0 e1 =>
        by_cases hside : e0 = d0
        · subst hside
          rw [if_pos (show side (.a0 e0 e1) = e0 from rfl), contents_append, hstart]
          fin_cases e1 <;> simp [htables]
        · simp [side, hside]
    | a1 e0 =>
        by_cases hside : e0 = d0
        · subst hside
          simp [side, contents, hstrings]
        · simp [side, hside]

/-- A string that has room is put, with its pointers. -/
theorem insert_laid (hlaid : Laid backdoor (contents hi strings)) (hcount : strings.length < 64)
    (s1 : List Byte)
    (hroom : strings.flatten.length + (s1 ++ if ends then [0] else []).length ≤ 0x7D00) :
    ∃ backdoor', insert hi ends backdoor s1 = some backdoor' ∧
      Laid backdoor' (contents hi (strings ++ [s1 ++ if ends then [0] else []])) ∧
      backdoor'.argc = backdoor.argc := by
  have hassert : backdoor.position (.a0 0 0) < 0x100 := by
    rw [hlaid.position, length_contents]
    show 0 + strings.length * 4 < 0x100
    omega
  obtain ⟨little, hlittle, hlaid₁, hargc₁⟩ :=
    insertSide_laid hlaid 0 (fun _ _ => rfl) hcount hroom
  have hother : ∀ p, side p = 1 →
      (if side p = 0 then contents hi (strings ++ [s1 ++ if ends then [0] else []]) p
        else contents hi strings p) = contents hi strings p := by
    intro p hp
    rw [if_neg (by simp [hp])]
  obtain ⟨big, hbig, hlaid₂, hargc₂⟩ := insertSide_laid hlaid₁ 1 hother hcount hroom
  refine ⟨big, ?_, ?_, hargc₂.trans hargc₁⟩
  · rw [insert, if_pos hassert, List.foldlM_cons, hlittle]
    simp only [List.foldlM_cons, List.foldlM_nil, hbig, Option.bind_eq_bind, Option.bind_some]
    rfl
  · convert hlaid₂ using 1
    funext p
    by_cases hp : side p = 1
    · rw [if_pos hp]
    · have hzero : side p = 0 := by omega
      rw [if_neg hp, if_pos hzero]

/-- A side moves its own position only, and its strings are within the memory. -/
theorem position_insertSide {d0 : Fin 2}
    (hput : insertSide hi bytes backdoor d0 = some backdoor') (e0 : Fin 2) :
    backdoor'.position (.a1 e0) =
        backdoor.position (.a1 e0) + (if e0 = d0 then bytes.length else 0) ∧
      (bytes = [] ∨ backdoor.position (.a1 d0) + bytes.length ≤ memsize) := by
  simp only [insertSide, Option.bind_eq_bind, Option.bind_eq_some_iff,
    Option.ite_none_right_eq_some] at hput
  obtain ⟨narrow, hnarrow, wide, hwide, done, hdone, -, hsame⟩ := hput
  cases hsame
  have hposition₁ := (position_putAll hnarrow).1
  have hposition₂ := (position_putAll hwide).1
  obtain ⟨hposition₃, hfits⟩ := position_putAll hdone
  have hbefore : ∀ f0, wide.position (.a1 f0) = backdoor.position (.a1 f0) := by
    intro f0
    simp [hposition₂, hposition₁]
  rw [hbefore] at hposition₃ hfits
  refine ⟨?_, hfits⟩
  rw [hposition₃]
  by_cases hside : e0 = d0
  · simp [hside]
  · simp [hside, hbefore]

/-- A string that has no room is not put. -/
theorem insert_eq_none (hlaid : Laid backdoor (contents hi strings)) (s1 : List Byte)
    (hfull : 64 ≤ strings.length ∨
      0x7D00 < strings.flatten.length + (s1 ++ if ends then [0] else []).length)
    (hbefore : strings.flatten.length ≤ 0x7D00) : insert hi ends backdoor s1 = none := by
  cases hinsert : insert hi ends backdoor s1 with
  | none => rfl
  | some done =>
      simp only [insert, List.foldlM_cons, List.foldlM_nil, Option.bind_eq_bind,
        Option.bind_eq_some_iff, Option.ite_none_right_eq_some] at hinsert
      obtain ⟨hassert, little, hlittle, big, hbig, -⟩ := hinsert
      rw [hlaid.position, length_contents] at hassert
      change 0 + strings.length * 4 < 0x100 at hassert
      obtain ⟨-, hfits⟩ := position_insertSide hbig 1
      rw [(position_insertSide hlittle 1).1, hlaid.position] at hfits
      change _ ∨ 0x8300 + strings.flatten.length + 0 + _ ≤ 65536 at hfits
      rcases hfull with hcount | htotal
      · omega
      · rcases hfits with hempty | hfits
        · rw [hempty] at htotal
          exact absurd htotal (by simpa using hbefore)
        · omega

/-- The strings are put one after the other as long as there is room for them. -/
theorem foldlM_insert (hi : Fin 2 → BitVec 64) (ends : Bool) (strings : List (List Byte))
    {done : List (List Byte)} (hlaid : Laid backdoor (contents hi done))
    (hcount : done.length ≤ 64) (hroom : done.flatten.length ≤ 0x7D00) :
    match strings.foldlM (insert hi ends) backdoor with
    | none => 64 < (done ++ strings.map (· ++ if ends then [0] else [])).length ∨
        0x7D00 < (done ++ strings.map (· ++ if ends then [0] else [])).flatten.length
    | some last => (done ++ strings.map (· ++ if ends then [0] else [])).length ≤ 64 ∧
        (done ++ strings.map (· ++ if ends then [0] else [])).flatten.length ≤ 0x7D00 ∧
        Laid last (contents hi (done ++ strings.map (· ++ if ends then [0] else []))) ∧
        last.argc = backdoor.argc := by
  induction strings generalizing backdoor done with
  | nil => simpa using ⟨hcount, by simpa using hroom, hlaid⟩
  | cons s1 strings ih =>
      rw [List.foldlM_cons]
      by_cases hnext : done.length < 64 ∧
          done.flatten.length + (s1 ++ if ends then [0] else []).length ≤ 0x7D00
      · obtain ⟨next, hinsert, hlaid', hargc⟩ := insert_laid hlaid hnext.1 s1 hnext.2
        rw [hinsert]
        have hrest := ih hlaid' (by simpa using hnext.1) (by simpa using hnext.2)
        rw [hargc] at hrest
        simpa using hrest
      · rw [insert_eq_none hlaid s1 (by omega) hroom]
        simp only [List.map_cons, List.length_append, List.length_cons, List.flatten_append,
          List.flatten_cons] at hnext ⊢
        show 64 < _ ∨ 0x7D00 < _
        omega

end Inserts

/-! ## What the program reads -/

section Reads

variable {hi : Fin 2 → BitVec 64} {backdoor : ArgvBackdoor} {strings : List (List Byte)} {i : ℕ}

/-- The bytes of the `i`-th pointer of a table. -/
theorem Laid.pointer_byte (hlaid : Laid backdoor (contents hi strings)) (d0 d1 : Fin 2)
    (hi_lt : i < strings.length) {q : ℕ} (hq : q < pointerSize d1) :
    backdoor.argvRam (flip (bigEndian d0) (base (.a0 d0 d1) + (pointerSize d1 * i + q))) =
      Bytes.bytes64 (pointer hi d0 (base (.a1 d0) + offset strings i))
        (if bigEndian d0 then pointerSize d1 - 1 - q else q) := by
  apply hlaid.holds.stored (.a0 d0 d1)
  rw [contents, getElem?_flatMap_range _ _ _ (fun _ => length_pointerBytes _ _ _) hi_lt hq]
  rw [pointerBytes, List.getElem?_map, List.getElem?_range hq, Option.map_some, Bytes.bytes64,
    BitVec.setWidth_ushiftRight_eq_extractLsb]

theorem Laid.read32 (hlaid : Laid backdoor (contents hi strings)) (hi_lt : i < strings.length) :
    backdoor.read32 (4 * i) = (pointer hi 0 (0x300 + offset strings i)).setWidth 32 := by
  rw [ArgvBackdoor.read32, ← Bytes.load32_bytes64]
  apply Bytes.load32_congr
  intro k hk
  have hbyte := hlaid.pointer_byte 0 0 hi_lt hk
  have haddress : flip (bigEndian 0) (base (.a0 0 0) + (pointerSize 0 * i + k)) =
      4 * (4 * i / 4) + k := by
    show (0 + (4 * i + k)) ^^^ 0 = _
    rw [Nat.xor_zero]
    omega
  rwa [haddress] at hbyte

theorem Laid.read64 (hlaid : Laid backdoor (contents hi strings)) (hi_lt : i < strings.length) :
    backdoor.read64 (0x100 + 8 * i) = pointer hi 0 (0x300 + offset strings i) := by
  rw [ArgvBackdoor.read64, ← Bytes.load64_bytes64 (pointer hi 0 _)]
  apply Bytes.load64_congr
  intro k hk
  have hbyte := hlaid.pointer_byte 0 1 hi_lt hk
  have haddress : flip (bigEndian 0) (base (.a0 0 1) + (pointerSize 1 * i + k)) =
      8 * ((0x100 + 8 * i) / 8) + k := by
    show (0x100 + (8 * i + k)) ^^^ 0 = _
    rw [Nat.xor_zero]
    omega
  rwa [haddress] at hbyte

theorem Laid.read64_be (hlaid : Laid backdoor (contents hi strings))
    (hi_lt : i < strings.length) :
    backdoor.read64 (0x8100 + 8 * i) = pointer hi 1 (0x8300 + offset strings i) := by
  rw [ArgvBackdoor.read64, ← Bytes.load64_bytes64 (pointer hi 1 _)]
  apply Bytes.load64_congr
  intro k hk
  have hbyte := hlaid.pointer_byte 1 1 hi_lt (show 7 - k < 8 by omega)
  have haddress : flip (bigEndian 1) (base (.a0 1 1) + (pointerSize 1 * i + (7 - k))) =
      8 * ((0x8100 + 8 * i) / 8) + k := by
    rw [flip_eq]
    show 8 * ((0x8100 + (8 * i + (7 - k))) / 8) + (7 - (0x8100 + (8 * i + (7 - k))) % 8) = _
    omega
  have hindex : (if bigEndian 1 then pointerSize 1 - 1 - (7 - k) else 7 - k) = k := by
    show 8 - 1 - (7 - k) = k
    omega
  rwa [haddress, hindex] at hbyte

/-- A read of 32 bits from the big-endian side, one word of 64 bits turned over at a time. -/
theorem read32Be_eq (backdoor : ArgvBackdoor) {a : ℕ} (haligned : a % 4 = 0) :
    backdoor.read32Be a = Bytes.load32 fun k => backdoor.argvRam (flip true (a + (3 - k))) := by
  have hbit : a &&& 4 = (a.testBit 2).toNat * 2 ^ 2 := Nat.and_two_pow a 2
  have htest : a.testBit 2 = decide (a / 4 % 2 = 1) := Nat.testBit_eq_decide_div_mod_eq
  rw [read32Be, hbit, htest]
  by_cases hodd : a / 4 % 2 = 1
  · rw [if_pos (by simp [hodd]), ArgvBackdoor.read64, Bytes.setWidth_load64]
    apply Bytes.load32_congr
    intro k hk
    congr 1
    rw [flip_eq]
    show _ = 8 * ((a + (3 - k)) / 8) + (7 - (a + (3 - k)) % 8)
    omega
  · rw [if_neg (by simp [hodd]), ArgvBackdoor.read64, Bytes.load64,
      BitVec.setWidth_ushiftRight_eq_extractLsb, BitVec.extractLsb'_append_eq_left]
    apply Bytes.load32_congr
    intro k hk
    congr 1
    rw [flip_eq]
    show _ = 8 * ((a + (3 - k)) / 8) + (7 - (a + (3 - k)) % 8)
    omega

theorem Laid.read32_be (hlaid : Laid backdoor (contents hi strings))
    (hi_lt : i < strings.length) :
    backdoor.read32Be (0x8000 + 4 * i) =
      (pointer hi 1 (0x8300 + offset strings i)).setWidth 32 := by
  rw [read32Be_eq backdoor (by omega), ← Bytes.load32_bytes64]
  apply Bytes.load32_congr
  intro k hk
  have hbyte := hlaid.pointer_byte 1 0 hi_lt (show 3 - k < 4 by omega)
  have haddress : base (.a0 1 0) + (pointerSize 0 * i + (3 - k)) = 0x8000 + 4 * i + (3 - k) := by
    show 0x8000 + (4 * i + (3 - k)) = _
    omega
  have hindex : (if bigEndian 1 then pointerSize 0 - 1 - (3 - k) else 3 - k) = k := by
    show 4 - 1 - (3 - k) = k
    omega
  rwa [haddress, hindex] at hbyte

/-- The bytes of the strings, on both sides. -/
theorem Laid.string_byte (hlaid : Laid backdoor (contents hi strings)) (d0 : Fin 2)
    {bytes : List Byte} (hbytes : strings[i]? = some bytes) {j : ℕ} {c : Byte}
    (hc : bytes[j]? = some c) :
    backdoor.argvRam (flip (bigEndian d0) (base (.a1 d0) + offset strings i + j)) = c := by
  rw [Nat.add_assoc]
  apply hlaid.holds.stored (.a1 d0)
  obtain ⟨hi_lt, rfl⟩ := List.getElem?_eq_some_iff.mp hbytes
  have hj := (List.getElem?_eq_some_iff.mp hc).1
  have hsplit : strings.flatten =
      (strings.take i).flatten ++ (strings[i] ++ (strings.drop (i + 1)).flatten) := by
    rw [← List.flatten_cons, ← List.drop_eq_getElem_cons hi_lt, ← List.flatten_append,
      List.take_append_drop]
  rw [contents, hsplit, offset, List.getElem?_append_right (Nat.le_add_right _ _),
    Nat.add_sub_cancel_left, List.getElem?_append_left hj, hc]

end Reads

/-! ## Arguments and input -/

/-- What a program finds of the `i`-th string, which begins `start` bytes after the first. -/
structure Found (backdoor : ArgvBackdoor) (hi : Fin 2 → BitVec 64) (i start : ℕ)
    (bytes : List Byte) : Prop where
  read32 : backdoor.read32 (4 * i) = (pointer hi 0 (0x300 + start)).setWidth 32
  read64 : backdoor.read64 (0x100 + 8 * i) = pointer hi 0 (0x300 + start)
  read32Be : backdoor.read32Be (0x8000 + 4 * i) = (pointer hi 1 (0x8300 + start)).setWidth 32
  read64Be : backdoor.read64 (0x8100 + 8 * i) = pointer hi 1 (0x8300 + start)
  bytes : ∀ j c, bytes[j]? = some c → backdoor.argvRam (0x300 + start + j) = c ∧
    backdoor.argvRam (flip true (0x8300 + start + j)) = c

theorem Laid.found {hi : Fin 2 → BitVec 64} {backdoor : ArgvBackdoor}
    {strings : List (List Byte)} (hlaid : Laid backdoor (contents hi strings)) {i : ℕ}
    {bytes : List Byte} (hbytes : strings[i]? = some bytes) :
    Found backdoor hi i (offset strings i) bytes := by
  have hi_lt := (List.getElem?_eq_some_iff.mp hbytes).1
  refine ⟨hlaid.read32 hi_lt, hlaid.read64 hi_lt, hlaid.read32_be hi_lt, hlaid.read64_be hi_lt,
    fun j c hc => ⟨?_, hlaid.string_byte 1 hbytes hc⟩⟩
  have hbyte := hlaid.string_byte 0 hbytes hc
  rw [flip_eq] at hbyte
  exact hbyte

/-- An OR with one bit leaves a number where it has the bit. -/
theorem lor_two_pow_eq_self (n bit : ℕ) : n ||| 2 ^ bit = n ↔ n.testBit bit = true := by
  constructor
  · intro heq
    rw [← heq, Nat.testBit_or, Nat.testBit_two_pow_self, Bool.or_true]
  · intro hbit
    apply Nat.eq_of_testBit_eq
    intro i
    rw [Nat.testBit_or, Nat.testBit_two_pow]
    by_cases hi : bit = i
    · rw [← hi, hbit, Bool.true_or]
    · rw [decide_eq_false hi, Bool.or_false]

theorem testBit_eq_true_iff (n bit : ℕ) : n.testBit bit = true ↔ n / 2 ^ bit % 2 = 1 := by
  rw [Nat.testBit_eq_decide_div_mod_eq, decide_eq_true_iff]

/-- A pointer leads to its string just when the string begins in an even block of 256 bytes,
counted from the first string. -/
theorem pointer_argvBase (d0 : Fin 2) {start : ℕ} (hstart : start < 0x7D00) :
    (pointer argvBase d0 (base (.a1 d0) + start)).toNat % memsize = base (.a1 d0) + start ↔
      start / 256 % 2 = 0 := by
  have hlow : ∀ d0, ∀ address < 2 ^ 16, (pointer argvBase d0 address).toNat % 2 ^ 16 =
      address ||| (argvBase d0).toNat % 2 ^ 16 := by
    intro d0 address haddress
    rw [pointer, BitVec.toNat_or, Nat.or_mod_two_pow, BitVec.toNat_ofNat, Nat.mod_mod_of_dvd,
      Nat.mod_eq_of_lt haddress]
    decide
  fin_cases d0
  · show (pointer argvBase 0 (0x300 + start)).toNat % 2 ^ 16 = 0x300 + start ↔ _
    rw [hlow _ _ (by omega)]
    show 0x300 + start ||| 2 ^ 8 = 0x300 + start ↔ _
    rw [lor_two_pow_eq_self, testBit_eq_true_iff]
    omega
  · show (pointer argvBase 1 (0x8300 + start)).toNat % 2 ^ 16 = 0x8300 + start ↔ _
    rw [hlow _ _ (by omega)]
    show 0x8300 + start ||| (2 ^ 15 ||| 2 ^ 8) = 0x8300 + start ↔ _
    have htop : 0x8300 + start ||| 2 ^ 15 = 0x8300 + start := by
      rw [lor_two_pow_eq_self, testBit_eq_true_iff]
      omega
    rw [← Nat.or_assoc, htop, lor_two_pow_eq_self, testBit_eq_true_iff]
    omega

theorem laid_init (hi : Fin 2 → BitVec 64) (ram : Buffer) (argc : ℕ) :
    Laid (init ram argc) (contents hi []) := by
  have hempty : contents hi [] = fun _ => [] := by
    funext p
    cases p <;> rfl
  rw [hempty]
  exact ⟨StreamPlan.holds_nil, fun _ => rfl⟩

theorem length_flatten_ended (strings : List (List Byte)) :
    (strings.map fun s => s ++ [0]).flatten.length = (strings.map fun s => s.length + 1).sum := by
  simp [List.length_flatten, Function.comp_def]

/-- The arguments are laid out, or there are more than 64 of them with the name of the image, or
more than 32000 bytes.  Their four pointers lead to them just when they begin in an even block of
256 bytes, counted from the first string. -/
theorem ofArguments_found (ram : Buffer) (imageName : List Byte) (argv : List (List Byte)) :
    match ofArguments ram imageName argv with
    | none => 64 < argv.length + 1 ∨
        0x7D00 < ((imageName :: argv).map fun s => s.length + 1).sum
    | some backdoor => backdoor.argc = argv.length + 1 ∧ argv.length + 1 ≤ 64 ∧
        ((imageName :: argv).map fun s => s.length + 1).sum ≤ 0x7D00 ∧
        ∀ i s, (imageName :: argv)[i]? = some s →
          let start := (((imageName :: argv).take i).map fun s => s.length + 1).sum
          Found backdoor argvBase i start (s ++ [0]) ∧
          ∀ d0, (pointer argvBase d0 (base (.a1 d0) + start)).toNat % memsize =
            base (.a1 d0) + start ↔ start / 256 % 2 = 0 := by
  have hrun := foldlM_insert argvBase true (imageName :: argv)
    (laid_init argvBase ram (argv.length + 1)) (Nat.zero_le _) (Nat.zero_le _)
  rw [List.nil_append, if_pos rfl, length_flatten_ended, List.length_map, List.length_cons] at hrun
  rw [ofArguments]
  cases hsetup : (imageName :: argv).foldlM (insert argvBase true) (init ram (argv.length + 1)) with
  | none => simpa only [hsetup] using hrun
  | some backdoor =>
      simp only [hsetup] at hrun
      obtain ⟨hcount, hroom, hlaid, hargc⟩ := hrun
      refine ⟨hargc, hcount, hroom, ?_⟩
      intro i s hs
      have hstart : offset ((imageName :: argv).map fun s => s ++ [0]) i =
          (((imageName :: argv).take i).map fun s => s.length + 1).sum := by
        rw [offset, ← List.map_take, length_flatten_ended]
      have hbefore : (((imageName :: argv).take i).map fun s => s.length + 1).sum < 0x7D00 := by
        obtain ⟨hlt, rfl⟩ := List.getElem?_eq_some_iff.mp hs
        apply Nat.lt_of_lt_of_le _ hroom
        conv_rhs => rw [← List.take_append_drop i (imageName :: argv),
          List.drop_eq_getElem_cons hlt]
        simp only [List.map_append, List.map_cons, List.sum_append, List.sum_cons]
        omega
      refine ⟨?_, fun d0 => pointer_argvBase d0 hbefore⟩
      rw [← hstart]
      apply hlaid.found
      rw [List.getElem?_map, hs, Option.map_some]

theorem flatten_buffers (input : List Byte) : (buffers input).flatten = input := by
  fun_induction buffers input with
  | case1 => rfl
  | case2 c input ih => rw [List.flatten_cons, ih, fgets_append]

theorem map_takeWhile_buffers {input : List Byte} (hnul : 0 ∉ input) :
    ((buffers input).map fun buffer => buffer.takeWhile fun c => c ≠ 0) = buffers input := by
  conv_rhs => rw [← List.map_id (buffers input)]
  apply List.map_congr_left
  intro buffer hbuffer
  rw [id, List.takeWhile_eq_self_iff]
  intro c hc
  rw [decide_eq_true_iff]
  rintro rfl
  rw [← flatten_buffers input] at hnul
  exact hnul (List.mem_flatten.mpr ⟨buffer, hbuffer, hc⟩)

/-- The input is laid out as one text, or it takes more than 64 buffers, or more than 32000
bytes. -/
theorem ofInput_text (ram : Buffer) (input : List Byte) (hnul : 0 ∉ input) :
    match ofInput ram input with
    | none => 64 < (buffers input).length ∨ 0x7D00 < input.length
    | some backdoor => (buffers input).length ≤ 64 ∧ input.length ≤ 0x7D00 ∧
        ∀ j c, input[j]? = some c → backdoor.argvRam (0x300 + j) = c ∧
          backdoor.argvRam (flip true (0x8300 + j)) = c := by
  have hrun := foldlM_insert stdinBase false (buffers input) (laid_init stdinBase ram 0)
    (Nat.zero_le _) (Nat.zero_le _)
  simp only [List.nil_append, Bool.false_eq_true, if_false, List.append_nil, List.map_id',
    flatten_buffers] at hrun
  rw [ofInput, map_takeWhile_buffers hnul]
  cases hsetup : (buffers input).foldlM (insert stdinBase false) (init ram 0) with
  | none => simpa only [hsetup] using hrun
  | some backdoor =>
      simp only [hsetup] at hrun
      obtain ⟨hcount, hroom, hlaid, -⟩ := hrun
      refine ⟨hcount, hroom, ?_⟩
      intro j c hc
      have hstored : ∀ d0, backdoor.argvRam (flip (bigEndian d0) (base (.a1 d0) + j)) = c := by
        intro d0
        apply hlaid.holds.stored (.a1 d0)
        rw [contents, flatten_buffers, hc]
      refine ⟨?_, hstored 1⟩
      have hlittle := hstored 0
      rw [flip_eq] at hlittle
      exact hlittle

/-- Two lines of input, and what the program reads of them. -/
theorem ofInput_text_lines :
    (0 : Byte) ∉ ([0x61, 0x0A, 0x62, 0x0A] : List Byte) ∧
      match ofInput (fun _ => 0xFF) [0x61, 0x0A, 0x62, 0x0A] with
      | none => 64 < (buffers [0x61, 0x0A, 0x62, 0x0A]).length ∨
          0x7D00 < ([0x61, 0x0A, 0x62, 0x0A] : List Byte).length
      | some backdoor => (buffers [0x61, 0x0A, 0x62, 0x0A]).length ≤ 64 ∧
          ([0x61, 0x0A, 0x62, 0x0A] : List Byte).length ≤ 0x7D00 ∧
          ∀ j c, ([0x61, 0x0A, 0x62, 0x0A] : List Byte)[j]? = some c →
            backdoor.argvRam (0x300 + j) = c ∧
              backdoor.argvRam (flip true (0x8300 + j)) = c :=
  ⟨by decide, ofInput_text (fun _ => 0xFF) [0x61, 0x0A, 0x62, 0x0A] (by decide)⟩

end ArgvBackdoor

end Prazor.Tenos
