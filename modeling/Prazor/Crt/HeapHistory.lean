import Prazor.Core.BumpArena
import Prazor.Core.Guarded
import Prazor.Crt.Malloc

/-!
# Histories of the heap

The calls of a program to the heap, and its stores into the blocks it was given.
The blocks lie end to end as long as every call fits; `malloc` looks only at where
a block begins, and `realloc` moves a block that shrinks and leaves one that grows.
-/

namespace Prazor.Crt

open Prazor.Bytes Prazor.BumpArena

/-- A block that was returned, and the size that was asked for. -/
structure Block where
  address : Word
  size : ℕ
  deriving DecidableEq

def roundUp (size : ℕ) : ℕ := (size + 3) / 4 * 4

namespace Block

/-- The block begins with its header. -/
def first (block : Block) : ℕ := block.address.toNat - 4

/-- The end of the bytes that were asked for. -/
def limit (block : Block) : ℕ := block.address.toNat + block.size

/-- The end of the bytes that were set aside. -/
def last (block : Block) : ℕ := block.address.toNat + roundUp block.size

/-- The block does not overlap another one, headers included. -/
def Apart (block other : Block) : Prop :=
  block.limit ≤ other.first ∨ other.limit ≤ block.first

end Block

/-- The heap, with the blocks returned so far. -/
structure History where
  heap : Heap
  blocks : List Block

inductive Call where
  | malloc (size : Word)
  | calloc (num size : Word)
  | realloc (ptr size : Word)
  | free (ptr : Word)
  | store (address : Word) (data : Byte)

namespace History

/-- A block that is reallocated in place has another size. -/
def resize (ptr : Word) (size : ℕ) (block : Block) : Block :=
  if block.address = ptr then { block with size := size } else block

/-- The history after an allocation, which has ended if the heap was exhausted. -/
def grant (history : History) (size : ℕ) (answer : Heap × Option Word) : Option History :=
  answer.2.map fun r => { heap := answer.1, blocks := ⟨r, size⟩ :: history.blocks }

variable (map : HeapMap)

def step (history : History) : Call → Option History
  | .malloc size => history.grant size.toNat (malloc map history.heap size)
  | .calloc num size =>
      history.grant (num.toNat * size.toNat) (calloc map history.heap num size)
  | .realloc ptr size =>
      let answer := realloc map history.heap ptr size
      if answer.2 = some ptr then
        some { heap := answer.1, blocks := history.blocks.map (resize ptr size.toNat) }
      else history.grant size.toNat answer
  | .free ptr => some { history with heap := free history.heap ptr }
  | .store address data =>
      some { history with heap :=
        { history.heap with bytes := Function.update history.heap.bytes address data } }

/-- The calls a program may make: the sizes are not negative, a pointer to a block is
one that was returned, and the program stores only into its blocks. -/
def Legal (history : History) : Call → Prop
  | .malloc size => size.toNat < 2 ^ 31
  | .calloc num size => num.toNat < 2 ^ 31 ∧ size.toNat < 2 ^ 31
  | .realloc ptr size =>
      size.toNat < 2 ^ 31 ∧ (ptr = 0 ∨ ∃ block ∈ history.blocks, block.address = ptr)
  | .free _ => True
  | .store address _ =>
      ∃ block ∈ history.blocks,
        block.address.toNat ≤ address.toNat ∧ address.toNat < block.limit

instance decidableLegal (history : History) : ∀ call, Decidable (history.Legal call)
  | .malloc size => inferInstanceAs (Decidable (size.toNat < 2 ^ 31))
  | .calloc num size =>
      inferInstanceAs (Decidable (num.toNat < 2 ^ 31 ∧ size.toNat < 2 ^ 31))
  | .realloc ptr size => inferInstanceAs (Decidable (size.toNat < 2 ^ 31 ∧
      (ptr = 0 ∨ ∃ block ∈ history.blocks, block.address = ptr)))
  | .free _ => .isTrue trivial
  | .store address _ => inferInstanceAs (Decidable (∃ block ∈ history.blocks,
      block.address.toNat ≤ address.toNat ∧ address.toNat < block.limit))

/-- A new block of this size, with its header, fits into the heap. -/
def Room (history : History) (size : ℕ) : Prop :=
  history.heap.heapbase.toNat + 4 + size ≤ map.heapEnd.toNat

/-- A new block fits; a block that is reallocated keeps its size, or it shrinks and
there is room for the old size. -/
def Fits (history : History) : Call → Prop
  | .malloc size => history.Room map size.toNat
  | .calloc num size => history.Room map (num.toNat * size.toNat)
  | .realloc ptr size =>
      if ptr = 0 then history.Room map size.toNat
      else ∀ block ∈ history.blocks, block.address = ptr →
        size.toNat = roundUp block.size ∨
          size.toNat < roundUp block.size ∧ history.Room map (roundUp block.size)
  | .free _ => True
  | .store _ _ => True

instance decidableRoom (history : History) (size : ℕ) : Decidable (history.Room map size) :=
  inferInstanceAs (Decidable (_ ≤ _))

instance decidableFits (history : History) : ∀ call, Decidable (history.Fits map call)
  | .malloc size => inferInstanceAs (Decidable (history.Room map size.toNat))
  | .calloc num size =>
      inferInstanceAs (Decidable (history.Room map (num.toNat * size.toNat)))
  | .realloc ptr _ => inferInstanceAs (Decidable (if ptr = 0 then _ else
      ∀ block ∈ history.blocks, block.address = ptr → _ ∨ _ ∧ _))
  | .free _ => .isTrue trivial
  | .store _ _ => .isTrue trivial

def Inside (address : Word) : Prop :=
  map.heapBase.toNat ≤ address.toNat ∧ address.toNat < map.heapEnd.toNat

/-- What a program relies on. -/
structure Sound (history : History) : Prop where
  inside : ∀ block ∈ history.blocks,
    map.heapBase.toNat + 4 ≤ block.address.toNat ∧ block.limit ≤ map.heapEnd.toNat
  reserved : ∀ block ∈ history.blocks, block.limit ≤ history.heap.heapbase.toNat
  apart : history.blocks.Pairwise Block.Apart
  touched : ∀ address ∈ history.heap.touched, Inside map address

/-- A reallocated block has its size and begins with what the old one held. -/
def Moved (history next : History) : Call → Prop
  | .realloc ptr size =>
      ∀ block ∈ history.blocks, block.address = ptr →
        ∃ newp, (realloc map history.heap ptr size).2 = some newp ∧
          ⟨newp, size.toNat⟩ ∈ next.blocks ∧
          ∀ i < min block.size size.toNat,
            next.heap.bytes (newp + BitVec.ofNat 32 i) =
              history.heap.bytes (ptr + BitVec.ofNat 32 i)
  | _ => True

/-- The call does not exhaust the heap, and leaves all as a program relies on. -/
def Served (history : History) (call : Call) : Prop :=
  ∃ next, history.step map call = some next ∧ next.Sound map ∧ Moved map history next call

/-- The blocks lie end to end and each has its size in its header. -/
structure Inv (history : History) : Prop where
  tiled : Tiled Block.first Block.last map.heapBase.toNat history.blocks
    history.heap.heapbase.toNat
  header : ∀ block ∈ history.blocks, 4 ≤ block.address.toNat ∧
    (history.heap.word (block.address - 4)).toNat = roundUp block.size
  aligned : history.heap.heapbase.toNat % 4 = 0
  frontier_le : history.heap.heapbase.toNat ≤ map.heapEnd.toNat
  touched : ∀ address ∈ history.heap.touched, Inside map address

end History

/-! ## Sizes and words -/

theorem le_roundUp (size : ℕ) : size ≤ roundUp size := by
  unfold roundUp
  omega

theorem roundUp_aligned (size : ℕ) : roundUp size % 4 = 0 := by
  unfold roundUp
  omega

theorem roundUp_of_aligned {size : ℕ} (haligned : size % 4 = 0) : roundUp size = size := by
  unfold roundUp
  omega

theorem clear_low_bits (word : Word) : (word &&& ~~~(3 : Word)).toNat = word.toNat / 4 * 4 := by
  have hshift : word &&& ~~~(3 : Word) = word >>> 2 <<< 2 := by
    ext i hi
    interval_cases i <;> simp
  rw [hshift, BitVec.toNat_shiftLeft, BitVec.toNat_ushiftRight, Nat.shiftLeft_eq,
    Nat.shiftRight_eq_div_pow]
  have hlt := word.isLt
  omega

/-- The size that `malloc` puts in the header. -/
theorem rounded_toNat {size : Word} (hsize : size.toNat < 2 ^ 31) :
    ((size + 3) &&& ~~~(3 : Word)).toNat = roundUp size.toNat := by
  rw [clear_low_bits, roundUp]
  bv_omega

/-- An address lies in the bytes from another one on. -/
theorem span_iff {address other : Word} {length : ℕ} (hfits : address.toNat + length ≤ 2 ^ 32) :
    (other - address).toNat < length ↔
      address.toNat ≤ other.toNat ∧ other.toNat < address.toNat + length := by
  have := other.isLt
  rw [BitVec.toNat_sub]
  omega

namespace Heap

variable {heap heap' : Heap} {address : Word}

theorem word_congr
    (hsame : ∀ i < 4, heap'.bytes (address + BitVec.ofNat 32 i) =
      heap.bytes (address + BitVec.ofNat 32 i)) :
    heap'.word address = heap.word address :=
  load32_congr hsame

theorem word_store32 (heap : Heap) (address data : Word) :
    (heap.store32 address data).word address = data := by
  have hbytes : ∀ i < 4, (heap.store32 address data).bytes (address + BitVec.ofNat 32 i) =
      bytes32 data i := by
    intro i hi
    have hoffset : (address + BitVec.ofNat 32 i - address).toNat = i := by
      have := address.isLt
      rw [BitVec.toNat_sub, BitVec.toNat_add, BitVec.toNat_ofNat]
      omega
    simp only [store32, fill, hoffset, hi, if_true]
  rw [word, load32_congr hbytes, load32_bytes32]

end Heap

/-! ## The loops -/

section Loops

variable {heap : Heap} {src dest r other : Word} {rounds : ℕ}

@[simp]
theorem bcopyRounds_heapbase : (bcopyRounds heap src dest rounds).heapbase = heap.heapbase := by
  induction rounds generalizing heap src dest with
  | zero => rfl
  | succ rounds ih => exact ih

/-- A copy to addresses above those it is from. -/
theorem bcopyRounds_bytes (habove : src.toNat + rounds ≤ dest.toNat)
    (hfits : dest.toNat + rounds < 2 ^ 32) (other : Word) :
    (bcopyRounds heap src dest rounds).bytes other =
      if (other - dest).toNat < rounds then heap.bytes (src + (other - dest))
      else heap.bytes other := by
  induction rounds generalizing heap src dest with
  | zero => rfl
  | succ rounds ih =>
      have hsrc : (src + 1).toNat = src.toNat + 1 := by bv_omega
      have hdest : (dest + 1).toNat = dest.toNat + 1 := by bv_omega
      rw [bcopyRounds, ih (by omega) (by omega)]
      rcases eq_or_ne other dest with rfl | hne
      · have hself : other - other = 0 := BitVec.sub_self other
        have hbehind : ¬(other - (other + 1)).toNat < rounds := by bv_omega
        rw [if_neg hbehind, hself, if_pos (by simp)]
        simp [Heap.copy8]
      · have hsame : (other - (dest + 1)).toNat < rounds ↔
            (other - dest).toNat < rounds + 1 := by
          have : other.toNat ≠ dest.toNat := fun heq => hne (BitVec.eq_of_toNat_eq heq)
          bv_omega
        have hshift : src + 1 + (other - (dest + 1)) = src + (other - dest) := by bv_omega
        rw [hshift]
        by_cases hin : (other - dest).toNat < rounds + 1
        · have hnot : src + (other - dest) ≠ dest := by
            intro heq
            have := congrArg BitVec.toNat heq
            bv_omega
          rw [if_pos (hsame.mpr hin), if_pos hin]
          simp [Heap.copy8, hnot]
        · rw [if_neg (mt hsame.mp hin), if_neg hin]
          simp [Heap.copy8, hne]

/-- A copy touches the bytes it is from and to. -/
theorem bcopyRounds_touched :
    (bcopyRounds heap src dest rounds).touched =
      heap.touched ∪ {other | ∃ i < rounds, other = src + BitVec.ofNat 32 i ∨
        other = dest + BitVec.ofNat 32 i} := by
  induction rounds generalizing heap src dest with
  | zero => simp [bcopyRounds]
  | succ rounds ih =>
      have hnext (address : Word) (i : ℕ) :
          address + 1 + BitVec.ofNat 32 i = address + BitVec.ofNat 32 (i + 1) := by
        rw [Nat.add_comm i 1, BitVec.ofNat_add, BitVec.add_assoc]
        rfl
      rw [bcopyRounds, ih]
      ext other
      simp only [Heap.copy8, Set.mem_union, Set.mem_insert_iff, Set.mem_ofPred_eq, hnext]
      constructor
      · rintro ((rfl | rfl | hold) | ⟨i, hi, hother⟩)
        · exact .inr ⟨0, by omega, .inr (by simp)⟩
        · exact .inr ⟨0, by omega, .inl (by simp)⟩
        · exact .inl hold
        · exact .inr ⟨i + 1, by omega, hother⟩
      · rintro (hold | ⟨i, hi, hother⟩)
        · exact .inl (.inr (.inr hold))
        · cases i with
          | zero =>
              rcases hother with rfl | rfl
              · exact .inl (.inr (.inl (by simp)))
              · exact .inl (.inl (by simp))
          | succ i => exact .inr ⟨i, by omega, hother⟩

@[simp]
theorem zeroRounds_heapbase : (zeroRounds heap r rounds).heapbase = heap.heapbase := by
  induction rounds with
  | zero => rfl
  | succ rounds ih => exact ih

theorem zeroRounds_bytes (hother : ∀ i < rounds, other ≠ r + BitVec.ofNat 32 i) :
    (zeroRounds heap r rounds).bytes other = heap.bytes other := by
  induction rounds with
  | zero => rfl
  | succ rounds ih =>
      rw [← ih fun i hi => hother i (by omega)]
      exact Function.update_of_ne (hother rounds (by omega)) _ _

theorem zeroRounds_touched (hother : other ∈ (zeroRounds heap r rounds).touched) :
    other ∈ heap.touched ∨ ∃ i < rounds, other = r + BitVec.ofNat 32 i := by
  induction rounds with
  | zero => exact .inl hother
  | succ rounds ih =>
      rcases hother with rfl | hother
      · exact .inr ⟨rounds, by omega, rfl⟩
      · rcases ih hother with hold | ⟨i, hi, heq⟩
        · exact .inl hold
        · exact .inr ⟨i, by omega, heq⟩

end Loops

/-! ## Allocations -/

section Malloc

variable {map : HeapMap} {heap : Heap} {size r : Word}

/-- `malloc` returns the place after the header, wherever the block ends. -/
theorem malloc_snd :
    (malloc map heap size).2 =
      if map.heapEnd < heap.heapbase + 4 then none else some (heap.heapbase + 4) := by
  unfold malloc
  exact apply_ite Prod.snd _ _ _

theorem eq_of_malloc (hr : (malloc map heap size).2 = some r) : r = heap.heapbase + 4 := by
  rw [malloc_snd] at hr
  split_ifs at hr
  exact (Option.some.inj hr).symm

/-- The header of the block, and the pointer behind the block. -/
theorem malloc_of_room (hsize : size.toNat < 2 ^ 31)
    (hroom : heap.heapbase.toNat + 4 + size.toNat ≤ map.heapEnd.toNat) :
    ∃ rounded : Word, rounded.toNat = roundUp size.toNat ∧
      malloc map heap size =
        ({ heap.store32 heap.heapbase rounded with
            heapbase := heap.heapbase + (rounded + 4) }, some (heap.heapbase + 4)) := by
  refine ⟨(size + 3) &&& ~~~(3 : Word), rounded_toNat hsize, ?_⟩
  have hwithin : ¬map.heapEnd < heap.heapbase + 4 := by
    have := map.end_lt
    bv_omega
  have hheader : ((size + 3) &&& ~~~(3 : Word)) + 4 - 4 = (size + 3) &&& ~~~(3 : Word) :=
    BitVec.add_sub_cancel _ _
  unfold malloc
  dsimp only
  rw [hheader]
  exact if_neg hwithin

end Malloc

namespace History

variable {map : HeapMap} {history next : History} {call : Call} {ptr size : Word}

theorem Inv.block_within (hinv : history.Inv map) {block : Block}
    (hblock : block ∈ history.blocks) :
    map.heapBase.toNat + 4 ≤ block.address.toNat ∧
      block.address.toNat + roundUp block.size ≤ history.heap.heapbase.toNat := by
  obtain ⟨hbase, hlimit⟩ := hinv.tiled.within hblock
  have habove := (hinv.header block hblock).1
  unfold Block.first at hbase
  exact ⟨by omega, hlimit⟩

/-- Blocks that lie end to end are what a program relies on. -/
theorem Inv.sound (hinv : history.Inv map) : history.Sound map where
  inside block hblock := by
    obtain ⟨hbase, hlimit⟩ := hinv.block_within hblock
    have hsize := le_roundUp block.size
    have hend := hinv.frontier_le
    exact ⟨hbase, by unfold Block.limit; omega⟩
  reserved block hblock := by
    obtain ⟨-, hlimit⟩ := hinv.block_within hblock
    have hsize := le_roundUp block.size
    unfold Block.limit
    omega
  apart := hinv.tiled.apart.imp fun {later earlier} hle => .inr <| calc
    earlier.limit
    _ ≤ earlier.last := Nat.add_le_add_left (le_roundUp _) _
    _ ≤ later.first := hle
  touched := hinv.touched

/-- An address in the heap, but not in a block. -/
theorem inside_of_beyond (hinv : history.Inv map) {address : Word}
    (hbeyond : history.heap.heapbase.toNat ≤ address.toNat)
    (hend : address.toNat < map.heapEnd.toNat) : Inside map address :=
  ⟨hinv.tiled.base_le.trans hbeyond, hend⟩

/-- The header of a block is kept by what only changes bytes beyond the blocks. -/
theorem Inv.header_kept (hinv : history.Inv map) {heap : Heap}
    (hkept : ∀ address : Word, address.toNat < history.heap.heapbase.toNat →
      heap.bytes address = history.heap.bytes address)
    {block : Block} (hblock : block ∈ history.blocks) :
    heap.word (block.address - 4) = history.heap.word (block.address - 4) := by
  obtain ⟨hbase, hlimit⟩ := hinv.block_within hblock
  refine Heap.word_congr fun i hi => hkept _ ?_
  bv_omega

/-- A block added behind the others. -/
theorem Inv.grant (hinv : history.Inv map) {heap : Heap} {size : ℕ}
    (hroom : history.Room map size)
    (hkept : ∀ address : Word, address.toNat < history.heap.heapbase.toNat →
      heap.bytes address = history.heap.bytes address)
    (hheader : (heap.word history.heap.heapbase).toNat = roundUp size)
    (hfrontier : heap.heapbase.toNat = history.heap.heapbase.toNat + 4 + roundUp size)
    (htouched : ∀ address ∈ heap.touched, Inside map address) :
    Inv map { heap := heap, blocks := ⟨history.heap.heapbase + 4, size⟩ :: history.blocks } := by
  have hbound := map.end_lt
  have haddress : (history.heap.heapbase + 4).toNat = history.heap.heapbase.toNat + 4 := by
    have := hinv.frontier_le
    bv_omega
  have haligned := hinv.aligned
  have hroundAligned := roundUp_aligned size
  unfold Room at hroom
  constructor
  case tiled =>
    refine ⟨?_, ?_, ?_⟩
    · simp only [Block.last, haddress, hfrontier]
    · simp only [Block.first, Block.last, haddress]
      omega
    · have hfirst : (⟨history.heap.heapbase + 4, size⟩ : Block).first =
          history.heap.heapbase.toNat := by
        simp only [Block.first, haddress]
        omega
      rw [hfirst]
      exact hinv.tiled
  case header =>
    intro block hblock
    rcases List.mem_cons.mp hblock with rfl | hold
    · have hback : history.heap.heapbase + 4 - 4 = history.heap.heapbase :=
        BitVec.add_sub_cancel _ _
      exact ⟨by dsimp only; omega, by dsimp only; rw [hback, hheader]⟩
    · obtain ⟨habove, hword⟩ := hinv.header block hold
      exact ⟨habove, by rw [hinv.header_kept hkept hold, hword]⟩
  case aligned =>
    dsimp only
    omega
  case frontier_le =>
    have hend := map.end_aligned
    unfold roundUp at *
    dsimp only
    omega
  case touched => exact htouched

/-! ### Calls that fit -/

/-- What the header of a new block changes. -/
theorem store32_kept {heap : Heap} {address data other : Word}
    (hfits : address.toNat + 4 ≤ 2 ^ 32)
    (hother : other.toNat < address.toNat ∨ address.toNat + 4 ≤ other.toNat) :
    (heap.store32 address data).bytes other = heap.bytes other := by
  have hout : ¬(other - address).toNat < 4 := by
    rw [span_iff hfits]
    omega
  exact if_neg hout

theorem store32_touched (hinv : history.Inv map) (data : Word) {size : ℕ}
    (hroom : history.Room map size) {address : Word}
    (htouched : address ∈ (history.heap.store32 history.heap.heapbase data).touched) :
    Inside map address := by
  have hbound := map.end_lt
  unfold Room at hroom
  rcases htouched with hold | hnew
  · exact hinv.touched address hold
  · have hspan := (span_iff (by omega)).mp hnew
    exact inside_of_beyond hinv hspan.1 (by omega)

theorem inv_malloc (hinv : history.Inv map) (hsize : size.toNat < 2 ^ 31)
    (hroom : history.Room map size.toNat) :
    ∃ heap, malloc map history.heap size = (heap, some (history.heap.heapbase + 4)) ∧
      (∀ address : Word, address.toNat < history.heap.heapbase.toNat →
        heap.bytes address = history.heap.bytes address) ∧
      (heap.word history.heap.heapbase).toNat = roundUp size.toNat ∧
      heap.heapbase.toNat = history.heap.heapbase.toNat + 4 + roundUp size.toNat ∧
      ∀ address ∈ heap.touched, Inside map address := by
  have hbound := map.end_lt
  obtain ⟨rounded, hrounded, hmalloc⟩ := malloc_of_room hsize hroom
  refine ⟨_, hmalloc, fun address hbelow => ?_, ?_, ?_, fun address htouched => ?_⟩
  · have hfrontier := hinv.frontier_le
    exact store32_kept (by omega) (.inl hbelow)
  · calc (Heap.word { history.heap.store32 history.heap.heapbase rounded with
          heapbase := history.heap.heapbase + (rounded + 4) } history.heap.heapbase).toNat
      _ = rounded.toNat := congrArg BitVec.toNat (Heap.word_store32 _ _ _)
      _ = roundUp size.toNat := hrounded
  · have hle : roundUp size.toNat ≤ size.toNat + 3 := by
      unfold roundUp
      omega
    unfold Room at hroom
    dsimp only
    bv_omega
  · exact store32_touched hinv rounded hroom htouched

/-- The bytes of a new block lie in the heap and beyond the others. -/
theorem offset_toNat {length i : ℕ} (hroom : history.Room map length) (hi : i < length) :
    (history.heap.heapbase + 4 + BitVec.ofNat 32 i).toNat =
      history.heap.heapbase.toNat + 4 + i := by
  have hbound := map.end_lt
  unfold Room at hroom
  bv_omega

theorem step_malloc (hinv : history.Inv map) (hsize : size.toNat < 2 ^ 31)
    (hroom : history.Room map size.toNat) :
    ∃ next, history.step map (.malloc size) = some next ∧ next.Inv map := by
  obtain ⟨heap, hmalloc, hkept, hheader, hfrontier, htouched⟩ := inv_malloc hinv hsize hroom
  refine ⟨_, ?_, hinv.grant hroom hkept hheader hfrontier htouched⟩
  rw [step, hmalloc]
  rfl

theorem step_calloc {num : Word} (hinv : history.Inv map)
    (hroom : history.Room map (num.toNat * size.toNat)) :
    ∃ next, history.step map (.calloc num size) = some next ∧ next.Inv map := by
  have hbound := map.end_lt
  have hproduct : (num * size).toNat = num.toNat * size.toNat := by
    unfold Room at hroom
    rw [BitVec.toNat_mul, Nat.mod_eq_of_lt (by omega)]
  have hsize : (num * size).toNat < 2 ^ 31 := by
    unfold Room at hroom
    omega
  have hrounds : (num * size).toInt.toNat = num.toNat * size.toNat := by
    rw [BitVec.toInt_eq_toNat_of_lt (by omega), Int.toNat_natCast, hproduct]
  rw [← hproduct] at hroom
  obtain ⟨heap, hmalloc, hkept, hheader, hfrontier, htouched⟩ := inv_malloc hinv hsize hroom
  let zeroed := zeroRounds heap (history.heap.heapbase + 4) (num.toNat * size.toNat)
  have hcalloc : calloc map history.heap num size =
      (zeroed, some (history.heap.heapbase + 4)) := by
    rw [calloc, hmalloc]
    dsimp only
    rw [hrounds]
  rw [hproduct] at hroom hheader hfrontier
  have hbelow : ∀ address : Word, address.toNat < history.heap.heapbase.toNat + 4 →
      zeroed.bytes address = heap.bytes address := by
    intro address hlt
    refine zeroRounds_bytes fun i hi heq => ?_
    have hoffset := offset_toNat hroom hi
    rw [← heq] at hoffset
    omega
  refine ⟨{ heap := zeroed
            blocks := ⟨history.heap.heapbase + 4, num.toNat * size.toNat⟩ :: history.blocks },
    ?_, hinv.grant hroom (fun address hlt => ?_) ?_ ?_ ?_⟩
  · rw [step, hcalloc]
    rfl
  · rw [hbelow address (by omega), hkept address hlt]
  · rw [← hheader]
    refine congrArg BitVec.toNat (Heap.word_congr fun i hi => hbelow _ ?_)
    have := hinv.frontier_le
    bv_omega
  · rw [zeroRounds_heapbase, hfrontier]
  · intro address hmem
    rcases zeroRounds_touched hmem with hold | ⟨i, hi, rfl⟩
    · exact htouched address hold
    · have hoffset := offset_toNat hroom hi
      unfold Room at hroom
      exact inside_of_beyond hinv (by omega) (by omega)

/-! ### Reallocations -/

/-- The size in the header of a block, as `realloc` compares it. -/
theorem Inv.cur (hinv : history.Inv map) {block : Block} (hblock : block ∈ history.blocks)
    (hsize : size.toNat < 2 ^ 31) :
    (history.heap.word (block.address - 4)).toInt.toNat = roundUp block.size ∧
      ((history.heap.word (block.address - 4)).sle size ↔
        roundUp block.size ≤ size.toNat) := by
  have hbound := map.end_lt
  have hend := hinv.frontier_le
  obtain ⟨-, hlimit⟩ := hinv.block_within hblock
  obtain ⟨-, hword⟩ := hinv.header block hblock
  have hcur : (history.heap.word (block.address - 4)).toInt = (roundUp block.size : ℤ) := by
    rw [BitVec.toInt_eq_toNat_of_lt (by omega), hword]
  refine ⟨by rw [hcur, Int.toNat_natCast], ?_⟩
  rw [BitVec.sle_iff_toInt_le, hcur, BitVec.toInt_eq_toNat_of_lt (by omega), Int.ofNat_le]

/-- A block is not the null pointer. -/
theorem Inv.address_ne_zero (hinv : history.Inv map) {block : Block}
    (hblock : block ∈ history.blocks) : block.address ≠ 0 := by
  intro hzero
  have habove := (hinv.header block hblock).1
  rw [hzero] at habove
  exact absurd habove (by decide)

/-- Reading the header of a block. -/
theorem Inv.touch32 (hinv : history.Inv map) {block : Block}
    (hblock : block ∈ history.blocks) :
    Inv map { history with heap := history.heap.touch32 (block.address - 4) } where
  tiled := hinv.tiled
  header := hinv.header
  aligned := hinv.aligned
  frontier_le := hinv.frontier_le
  touched := by
    rintro address (hold | hnew)
    · exact hinv.touched address hold
    · have hbound := map.end_lt
      have hend := hinv.frontier_le
      obtain ⟨hbase, hlimit⟩ := hinv.block_within hblock
      have hheader : (block.address - 4).toNat = block.address.toNat - 4 := by bv_omega
      have hspan := (span_iff (by omega)).mp hnew
      exact ⟨by omega, by omega⟩

/-- A block that keeps its size, or that grows, is left where it is. -/
theorem realloc_in_place (hinv : history.Inv map) {block : Block}
    (hblock : block ∈ history.blocks) (hsize : size.toNat < 2 ^ 31)
    (hgrows : roundUp block.size ≤ size.toNat) :
    realloc map history.heap block.address size =
      (history.heap.touch32 (block.address - 4), some block.address) := by
  unfold realloc
  rw [if_neg (hinv.address_ne_zero hblock)]
  exact if_pos ((hinv.cur hblock hsize).2.mpr hgrows)

/-- A block that shrinks is copied to a new one. -/
theorem realloc_shrink (hinv : history.Inv map) {block : Block}
    (hblock : block ∈ history.blocks) (hsize : size.toNat < 2 ^ 31)
    (hshrinks : size.toNat < roundUp block.size) :
    realloc map history.heap block.address size =
      match malloc map (history.heap.touch32 (block.address - 4)) size with
      | (heap, none) => (heap, none)
      | (heap, some newp) =>
          (bcopyRounds heap block.address newp (roundUp block.size), some newp) := by
  obtain ⟨hrounds, hsle⟩ := hinv.cur hblock hsize
  unfold realloc
  rw [if_neg (hinv.address_ne_zero hblock)]
  dsimp only
  rw [if_neg (by rw [hsle]; omega)]
  rcases malloc map (history.heap.touch32 (block.address - 4)) size with ⟨heap, _ | newp⟩
  · rfl
  · dsimp only
    rw [free, bcopy, hrounds]

/-- A block that is reallocated with the size in its header. -/
theorem step_realloc_keep (hinv : history.Inv map) {block : Block}
    (hblock : block ∈ history.blocks) (hsize : size.toNat = roundUp block.size) :
    ∃ next, history.step map (.realloc block.address size) = some next ∧ next.Inv map ∧
      Moved map history next (.realloc block.address size) := by
  have hbound := map.end_lt
  have hend := hinv.frontier_le
  obtain ⟨-, hlimit⟩ := hinv.block_within hblock
  have hrealloc := realloc_in_place hinv hblock (by omega) hsize.ge
  have htouch := hinv.touch32 hblock
  refine ⟨{ heap := history.heap.touch32 (block.address - 4)
            blocks := history.blocks.map (resize block.address size.toNat) }, ?_, ?_, ?_⟩
  · rw [step, hrealloc]
    exact if_pos rfl
  · have hround : ∀ other ∈ history.blocks,
        roundUp (resize block.address size.toNat other).size = roundUp other.size := by
      intro other hother
      unfold resize
      split_ifs with heq
      · have hword := (hinv.header block hblock).2
        rw [← heq, (hinv.header other hother).2] at hword
        rw [hsize, hword, roundUp_of_aligned (roundUp_aligned _)]
      · rfl
    have haddress (other : Block) :
        (resize block.address size.toNat other).address = other.address := by
      unfold resize
      split_ifs <;> rfl
    constructor
    case tiled =>
      refine htouch.tiled.map (fun other _ => ?_) fun other hother => ?_
      · rw [Block.first, haddress, Block.first]
      · rw [Block.last, haddress, hround other hother, Block.last]
    case header =>
      intro other hother
      obtain ⟨old, hold, rfl⟩ := List.mem_map.mp hother
      rw [haddress, hround old hold]
      exact htouch.header old hold
    case aligned => exact htouch.aligned
    case frontier_le => exact htouch.frontier_le
    case touched => exact htouch.touched
  · intro other hother heq
    refine ⟨block.address, by rw [hrealloc], ?_, fun i hi => rfl⟩
    exact List.mem_map.mpr ⟨other, hother, by rw [resize, if_pos heq, heq]⟩

/-- A block that shrinks, with room for the old size. -/
theorem step_realloc_shrink (hinv : history.Inv map) {block : Block}
    (hblock : block ∈ history.blocks) (hshrinks : size.toNat < roundUp block.size)
    (hroom : history.Room map (roundUp block.size)) :
    ∃ next, history.step map (.realloc block.address size) = some next ∧ next.Inv map ∧
      Moved map history next (.realloc block.address size) := by
  have hbound := map.end_lt
  have hend := hinv.frontier_le
  obtain ⟨hbase, hlimit⟩ := hinv.block_within hblock
  have hroomOld := hroom
  unfold Room at hroom
  have hsize : size.toNat < 2 ^ 31 := by omega
  have hroomNew : history.Room map size.toNat := by
    unfold Room
    omega
  have htouch := hinv.touch32 hblock
  obtain ⟨heap, hmalloc, hkept, hheader, hfrontier, htouched⟩ :=
    inv_malloc htouch hsize hroomNew
  dsimp only [Heap.touch32] at hmalloc hkept hheader hfrontier
  have hnewp : (history.heap.heapbase + 4).toNat = history.heap.heapbase.toNat + 4 := by
    bv_omega
  let newp := history.heap.heapbase + 4
  change newp.toNat = _ at hnewp
  let copied := bcopyRounds heap block.address newp (roundUp block.size)
  have hcopied : ∀ other, copied.bytes other =
      if (other - newp).toNat < roundUp block.size then
        heap.bytes (block.address + (other - newp))
      else heap.bytes other := bcopyRounds_bytes (by omega) (by omega)
  have hrealloc : realloc map history.heap block.address size = (copied, some newp) := by
    rw [realloc_shrink hinv hblock hsize hshrinks, Heap.touch32, hmalloc]
  have hbelow : ∀ address : Word, address.toNat < newp.toNat →
      copied.bytes address = heap.bytes address := by
    intro address hlt
    rw [hcopied, if_neg]
    rw [span_iff (by omega)]
    omega
  refine ⟨{ heap := copied, blocks := ⟨newp, size.toNat⟩ :: history.blocks }, ?_, ?_, ?_⟩
  · have hne : some newp ≠ some block.address := by
      intro heq
      rw [Option.some.inj heq] at hnewp
      omega
    rw [step, hrealloc]
    exact if_neg hne
  · refine htouch.grant hroomNew (fun address hlt => ?_) ?_ ?_ ?_
    · dsimp only [Heap.touch32] at hlt
      rw [hbelow address (by omega), hkept address hlt]
      rfl
    · dsimp only [Heap.touch32]
      rw [← hheader]
      refine congrArg BitVec.toNat (Heap.word_congr fun i hi => hbelow _ ?_)
      bv_omega
    · dsimp only [Heap.touch32]
      rw [bcopyRounds_heapbase, hfrontier]
    · intro address hmem
      rw [bcopyRounds_touched] at hmem
      rcases hmem with hold | ⟨i, hi, rfl | rfl⟩
      · exact htouched address hold
      · exact ⟨by bv_omega, by bv_omega⟩
      · have hoffset := offset_toNat hroomOld hi
        change (newp + BitVec.ofNat 32 i).toNat = _ at hoffset
        exact inside_of_beyond hinv (by omega) (by omega)
  · intro other hother heq
    refine ⟨newp, by rw [hrealloc], List.mem_cons_self, fun i hi => ?_⟩
    have hi' : i < roundUp block.size := by
      have hword := (hinv.header block hblock).2
      rw [← heq, (hinv.header other hother).2] at hword
      have hle := le_roundUp other.size
      omega
    have hoffset : newp + BitVec.ofNat 32 i - newp = BitVec.ofNat 32 i := by
      rw [BitVec.add_comm, BitVec.add_sub_cancel]
    dsimp only
    rw [hcopied, hoffset, if_pos (by bv_omega), hkept _ (by bv_omega)]

/-! ### The program's own stores -/

instance : Std.Symm Block.Apart where
  symm _ _ hapart := Or.symm hapart

/-- Two blocks of a heap that a program can rely on. -/
theorem Sound.apart_of_ne (hsound : history.Sound map) {block other : Block}
    (hblock : block ∈ history.blocks) (hother : other ∈ history.blocks)
    (hne : block ≠ other) : block.Apart other :=
  hsound.apart.forall hblock hother hne

theorem step_store {address : Word} {data : Byte} (hinv : history.Inv map)
    (hlegal : history.Legal (.store address data)) :
    ∃ next, history.step map (.store address data) = some next ∧ next.Inv map := by
  obtain ⟨block, hblock, hfrom, hto⟩ := hlegal
  refine ⟨_, rfl, ?_⟩
  constructor
  case tiled => exact hinv.tiled
  case aligned => exact hinv.aligned
  case frontier_le => exact hinv.frontier_le
  case touched => exact hinv.touched
  case header =>
    intro other hother
    obtain ⟨habove, hword⟩ := hinv.header other hother
    refine ⟨habove, ?_⟩
    rw [← hword]
    refine congrArg BitVec.toNat (Heap.word_congr fun i hi => Function.update_of_ne ?_ _ _)
    intro heq
    have hplace : (other.address - 4 + BitVec.ofNat 32 i).toNat =
        other.address.toNat - 4 + i := by bv_omega
    rw [heq] at hplace
    rcases eq_or_ne block other with rfl | hne
    · omega
    · have hlimit := le_roundUp other.size
      rcases hinv.sound.apart_of_ne hblock hother hne with hbefore | hafter
      · unfold Block.first at hbefore
        omega
      · have hfirst := (hinv.header block hblock).1
        unfold Block.first Block.limit at hafter
        omega

/-! ### Every call -/

/-- A legal call that fits is served, and keeps the blocks end to end. -/
theorem step_of_fits (hinv : history.Inv map) (hlegal : history.Legal call)
    (hfits : history.Fits map call) :
    ∃ next, history.step map call = some next ∧ next.Inv map ∧
      Moved map history next call := by
  cases call with
  | malloc size =>
      obtain ⟨next, hstep, hnext⟩ := step_malloc hinv hlegal hfits
      exact ⟨next, hstep, hnext, trivial⟩
  | calloc num size =>
      obtain ⟨next, hstep, hnext⟩ := step_calloc hinv hfits
      exact ⟨next, hstep, hnext, trivial⟩
  | realloc ptr size =>
      obtain ⟨hsize, rfl | ⟨block, hblock, rfl⟩⟩ := hlegal
      · rw [Fits, if_pos rfl] at hfits
        obtain ⟨next, hstep, hnext⟩ := step_malloc hinv hsize hfits
        obtain ⟨heap, hmalloc, -⟩ := inv_malloc hinv hsize hfits
        refine ⟨next, ?_, hnext, fun other hother heq =>
          absurd heq (hinv.address_ne_zero hother)⟩
        have hne : history.heap.heapbase + 4 ≠ 0 := by
          have hend := hinv.frontier_le
          have hbound := map.end_lt
          intro hzero
          have := congrArg BitVec.toNat hzero
          bv_omega
        have hrealloc : realloc map history.heap 0 size = malloc map history.heap size :=
          if_pos rfl
        rw [step, hrealloc, hmalloc]
        rw [step, hmalloc] at hstep
        dsimp only
        rw [if_neg (by simpa using hne), hstep]
      · rw [Fits, if_neg (hinv.address_ne_zero hblock)] at hfits
        rcases hfits block hblock rfl with hkeep | ⟨hshrinks, hroom⟩
        · exact step_realloc_keep hinv hblock hkeep
        · exact step_realloc_shrink hinv hblock hshrinks hroom
  | free ptr => exact ⟨_, rfl, hinv, trivial⟩
  | store address data =>
      obtain ⟨next, hstep, hnext⟩ := step_store hinv hlegal
      exact ⟨next, hstep, hnext, trivial⟩

/-! ### Calls that do not fit -/

/-- A block that does not fit is returned all the same, if its header does. -/
theorem not_sound_of_grant {size : ℕ} {answer : Heap × Option Word}
    (hinv : history.Inv map) (hroom : ¬history.Room map size)
    (hanswer : ∀ r, answer.2 = some r → r = history.heap.heapbase + 4)
    (hgrant : history.grant size answer = some next) : ¬next.Sound map := by
  intro hsound
  obtain ⟨r, hr, rfl⟩ := Option.map_eq_some_iff.mp hgrant
  have hlimit := (hsound.inside _ List.mem_cons_self).2
  rw [hanswer r hr] at hlimit
  have hbound := map.end_lt
  have hend := hinv.frontier_le
  have haddress : (history.heap.heapbase + 4).toNat = history.heap.heapbase.toNat + 4 := by
    bv_omega
  unfold Block.limit at hlimit
  rw [haddress] at hlimit
  exact hroom hlimit

theorem eq_of_calloc {heap : Heap} {num r : Word}
    (hr : (calloc map heap num size).2 = some r) : r = heap.heapbase + 4 := by
  unfold calloc at hr
  split at hr
  · cases hr
  · rename_i hmalloc
    rw [← Option.some.inj hr]
    exact eq_of_malloc (congrArg Prod.snd hmalloc)

/-- A block that grows runs into the next one, or into what is free. -/
theorem not_sound_of_grow (hinv : history.Inv map) {block : Block}
    (hblock : block ∈ history.blocks) (heap : Heap)
    (hheap : heap.heapbase = history.heap.heapbase) {size : ℕ}
    (hgrows : roundUp block.size < size) :
    ¬Sound map { heap := heap, blocks := history.blocks.map (resize block.address size) } := by
  intro hsound
  let grown : Block := { block with size := size }
  have hmem : grown ∈ history.blocks.map (resize block.address size) :=
    List.mem_map.mpr ⟨block, hblock, if_pos rfl⟩
  have habove := (hinv.header block hblock).1
  rcases hinv.tiled.next_or_free hblock with hfree | ⟨next, hnext, hfollows⟩
  · have hreserved := hsound.reserved grown hmem
    unfold Block.last at hfree
    rw [hheap] at hreserved
    change block.address.toNat + size ≤ _ at hreserved
    omega
  · have habove' := (hinv.header next hnext).1
    unfold Block.first Block.last at hfollows
    have haddress : next.address ≠ block.address := by
      intro heq
      rw [heq] at hfollows
      omega
    have hmem' : next ∈ history.blocks.map (resize block.address size) :=
      List.mem_map.mpr ⟨next, hnext, if_neg haddress⟩
    have hne : grown ≠ next := fun heq => haddress (congrArg Block.address heq).symm
    rcases hsound.apart_of_ne hmem hmem' hne with hbefore | hafter
    · unfold Block.limit Block.first at hbefore
      change block.address.toNat + size ≤ _ at hbefore
      omega
    · unfold Block.limit Block.first at hafter
      change _ ≤ block.address.toNat - 4 at hafter
      omega

/-- The copy of a block that shrinks is as long as the old one. -/
theorem not_sound_of_copy (hinv : history.Inv map) {block : Block}
    (hblock : block ∈ history.blocks) (hsize : size.toNat < 2 ^ 31)
    (hshrinks : size.toNat < roundUp block.size)
    (hroom : ¬history.Room map (roundUp block.size))
    (hstep : history.step map (.realloc block.address size) = some next) :
    ¬next.Sound map := by
  intro hsound
  have hbound := map.end_lt
  have hend := hinv.frontier_le
  have habove := (hinv.header block hblock).1
  obtain ⟨-, hlimit⟩ := hinv.block_within hblock
  rw [step, realloc_shrink hinv hblock hsize hshrinks] at hstep
  cases hmalloc : malloc map (history.heap.touch32 (block.address - 4)) size with
  | mk heap result =>
  rw [hmalloc] at hstep
  cases result with
  | none =>
      dsimp only at hstep
      rw [if_neg (by simp)] at hstep
      cases hstep
  | some newp =>
      have hnewp := eq_of_malloc (congrArg Prod.snd hmalloc)
      change newp = history.heap.heapbase + 4 at hnewp
      dsimp only at hstep
      have hne : some newp ≠ some block.address := by
        intro heq
        rw [hnewp, Option.some.injEq] at heq
        have := congrArg BitVec.toNat heq
        bv_omega
      rw [if_neg hne] at hstep
      cases hstep
      -- the last byte of the copy lies beyond the heap
      have hlast := hsound.touched (newp + BitVec.ofNat 32 (roundUp block.size - 1)) (by
        rw [bcopyRounds_touched]
        exact .inr ⟨roundUp block.size - 1, by omega, .inr rfl⟩)
      have hinside := hlast.2
      have hplace : (newp + BitVec.ofNat 32 (roundUp block.size - 1)).toNat =
          history.heap.heapbase.toNat + 4 + (roundUp block.size - 1) := by
        rw [hnewp]
        bv_omega
      rw [hplace] at hinside
      unfold Room at hroom
      omega

theorem not_sound_of_not_fits (hinv : history.Inv map) (hlegal : history.Legal call)
    (hfits : ¬history.Fits map call) (hstep : history.step map call = some next) :
    ¬next.Sound map := by
  cases call with
  | malloc size => exact not_sound_of_grant hinv hfits (fun r hr => eq_of_malloc hr) hstep
  | calloc num size =>
      exact not_sound_of_grant hinv hfits (fun r hr => eq_of_calloc hr) hstep
  | realloc ptr size =>
      obtain ⟨hsize, rfl | ⟨block, hblock, rfl⟩⟩ := hlegal
      · rw [Fits, if_pos rfl] at hfits
        have hrealloc : realloc map history.heap 0 size = malloc map history.heap size :=
          if_pos rfl
        rw [step, hrealloc] at hstep
        split_ifs at hstep with hzero
        · have hbound := map.end_lt
          have hend := hinv.frontier_le
          have := congrArg BitVec.toNat (eq_of_malloc hzero)
          bv_omega
        · exact not_sound_of_grant hinv hfits (fun r hr => eq_of_malloc hr) hstep
      · rw [Fits, if_neg (hinv.address_ne_zero hblock)] at hfits
        obtain ⟨other, hother, heq, hbad⟩ : ∃ other ∈ history.blocks,
            other.address = block.address ∧ ¬(size.toNat = roundUp other.size ∨
              size.toNat < roundUp other.size ∧ history.Room map (roundUp other.size)) := by
          simpa using hfits
        rw [← heq] at hstep
        rcases Nat.lt_or_ge size.toNat (roundUp other.size) with hshrinks | hgrows
        · exact not_sound_of_copy hinv hother hsize hshrinks
            (fun hroom => hbad (.inr ⟨hshrinks, hroom⟩)) hstep
        · rw [step, realloc_in_place hinv hother hsize hgrows] at hstep
          dsimp only at hstep
          rw [if_pos rfl] at hstep
          cases hstep
          exact not_sound_of_grow hinv hother (history.heap.touch32 (other.address - 4)) rfl
            (lt_of_le_of_ne hgrows fun hsame => hbad (.inl hsame.symm))
  | free ptr => exact absurd trivial hfits
  | store address data => exact absurd trivial hfits

/-- When the heap is found to be exhausted, a header was put behind it. -/
theorem exhausted_touches (hinv : history.Inv map)
    (hexhausted : (malloc map history.heap size).2 = none) :
    ∃ address ∈ (malloc map history.heap size).1.touched, ¬Inside map address := by
  rw [malloc_snd] at hexhausted
  have hbeyond : map.heapEnd < history.heap.heapbase + 4 := by
    by_contra hwithin
    rw [if_neg hwithin] at hexhausted
    cases hexhausted
  have hfull : history.heap.heapbase.toNat = map.heapEnd.toNat := by
    have hbound := map.end_lt
    have hend := hinv.frontier_le
    have haligned := hinv.aligned
    have haligned' := map.end_aligned
    bv_omega
  refine ⟨history.heap.heapbase, ?_, fun hinside => absurd hinside.2 (by omega)⟩
  have hexits : malloc map history.heap size = (history.heap.store32 history.heap.heapbase
      (((size + 3) &&& ~~~(3 : Word)) + 4 - 4), none) := if_pos hbeyond
  have hself : history.heap.heapbase - history.heap.heapbase = 0 := BitVec.sub_self _
  rw [hexits]
  exact .inr (by rw [Set.mem_ofPred_eq, hself]; decide)

/-! ### Whole histories -/

/-- The heap before the first call. -/
def start (map : HeapMap) (bytes : Word → Byte) : History where
  heap := { bytes := bytes, heapbase := map.heapBase, touched := ∅ }
  blocks := []

theorem inv_start (map : HeapMap) (bytes : Word → Byte) : Inv map (start map bytes) where
  tiled := rfl
  header _ hblock := nomatch hblock
  aligned := map.base_aligned
  frontier_le := map.base_le_end
  touched _ haddress := nomatch haddress

theorem served_iff_fits (hinv : history.Inv map) (hlegal : history.Legal call) :
    history.Served map call ↔ history.Fits map call := by
  constructor
  · rintro ⟨next, hstep, hsound, -⟩
    by_contra hfits
    exact not_sound_of_not_fits hinv hlegal hfits hstep hsound
  · intro hfits
    obtain ⟨next, hstep, hnext, hmoved⟩ := step_of_fits hinv hlegal hfits
    exact ⟨next, hstep, hnext.sound, hmoved⟩

/-- After every history of legal calls that fit, the heap is what the program relies on,
and the next legal call is served exactly if it fits too.  A report that the heap is
exhausted always comes after a byte behind it was touched. -/
theorem heap_served {bytes : Word → Byte} {calls : List Call}
    (hguard : Guarded.Meets (step map)
      (fun history call => history.Legal call ∧ history.Fits map call)
      (start map bytes) calls)
    (hrun : Guarded.exec (step map) (start map bytes) calls = some history) :
    history.Sound map ∧
      (∀ call, history.Legal call → (history.Served map call ↔ history.Fits map call)) ∧
      ∀ size, (malloc map history.heap size).2 = none →
        ∃ address ∈ (malloc map history.heap size).1.touched, ¬Inside map address := by
  have hstep : ∀ history call next, Inv map history →
      (history.Legal call ∧ history.Fits map call) →
      history.step map call = some next → Inv map next := by
    rintro history call next hinv ⟨hlegal, hfits⟩ hstep
    obtain ⟨other, hother, hkept, -⟩ := step_of_fits hinv hlegal hfits
    rw [hstep, Option.some.injEq] at hother
    exact hother ▸ hkept
  have hinv : Inv map history :=
    Guarded.exec_invariant hstep (inv_start map bytes) hguard hrun
  exact ⟨hinv.sound, fun call hlegal => served_iff_fits hinv hlegal,
    fun size hexhausted => exhausted_touches hinv hexhausted⟩

/-- The heap of the ARM images after `malloc(5)`. -/
def allocated : History where
  heap :=
    { (start armHeap fun _ => 0).heap.store32 0x10000000 8 with heapbase := 0x1000000C }
  blocks := [⟨0x10000004, 5⟩]

theorem exec_allocated :
    Guarded.exec (step armHeap) (start armHeap fun _ => 0) [.malloc 5] = some allocated :=
  rfl

/-- The block can be shrunk to 3 bytes, but not be grown to 12. -/
theorem heap_served_allocated :
    allocated.Served armHeap (.realloc 0x10000004 3) ∧
      ¬allocated.Served armHeap (.realloc 0x10000004 12) := by
  have hguard : Guarded.Meets (step armHeap)
      (fun history call => history.Legal call ∧ history.Fits armHeap call)
      (start armHeap fun _ => 0) [.malloc 5] :=
    ⟨⟨by decide, by decide⟩, fun _ _ => trivial⟩
  obtain ⟨-, hserved, -⟩ := heap_served hguard exec_allocated
  exact ⟨(hserved _ (by decide)).mpr (by decide), mt (hserved _ (by decide)).mp (by decide)⟩

/-- On the ARM images `malloc(0x70000000)` returns a block that ends beyond the heap. -/
theorem not_heap_sound :
    ¬∀ (map : HeapMap) (bytes : Word → Byte) (calls : List Call) (history : History),
      Guarded.Meets (step map) Legal (start map bytes) calls →
        Guarded.exec (step map) (start map bytes) calls = some history →
          history.Sound map := by
  intro hclaim
  have hguard : Guarded.Meets (step armHeap) Legal (start armHeap fun _ => 0)
      [.malloc 0x70000000] := ⟨by decide, fun _ _ => trivial⟩
  have hrun : Guarded.exec (step armHeap) (start armHeap fun _ => 0) [.malloc 0x70000000] =
      some { heap := { (start armHeap fun _ => 0).heap.store32 0x10000000 0x70000000 with
                heapbase := 0x80000004 }
             blocks := [⟨0x10000004, 0x70000000⟩] } := rfl
  have hinside := (hclaim _ _ _ _ hguard hrun).inside _ List.mem_cons_self
  exact absurd hinside.2 (by decide)

end History

end Prazor.Crt
