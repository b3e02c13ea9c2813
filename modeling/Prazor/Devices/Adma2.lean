import Prazor.Core.Assignments
import Prazor.Devices.SdioRegisters

/-!
# ADMA2 descriptor tables

A table is walked from the ADMA system address: a line transfers, links or does nothing, and the
line with the end flag is the last.  What the lines move is said by the bytes of card and memory.
The controller moves exactly this when the lines with the end flag are those that do not transfer,
and a transfer to the card is of one doubleword to its first block.
-/

namespace Prazor.Devices.Sdio

open Prazor.Tlm Prazor.Bytes SdioCbg Assignments

/-! ## Tables -/

/-- What a table works on: the memory, the disk and the place on it that is written next, and how
many bytes of a command were sent. -/
structure Stream where
  memory : Memory
  disk : BitVec 32 → Byte
  offset : BitVec 32
  sent : ℕ

/-- A byte of the data of a command. -/
def fifoByte (elements : List (BitVec 32)) (n : ℕ) : Byte :=
  bytes32 (elements.getD (n / 4) 0) (n % 4)

/-- How many bytes a line moves. -/
def SdioCbg.Descriptor.moves (line : Descriptor) : ℕ :=
  if line.act = 2 then transferLength line.length else 0

/-- The address of the line after this one. -/
def SdioCbg.Descriptor.next (line : Descriptor) (address : BitVec 32) : BitVec 32 :=
  if line.act = 3 then line.addr else address + 8

/-- Bytes move from memory to the card or from the card to memory; all of them answer. -/
def Stream.move (toCard : Bool) (elements : List (BitVec 32)) (t : Stream) (addr : BitVec 32)
    (count : ℕ) : Option Stream :=
  if ∀ i < count, (t.memory (addr + BitVec.ofNat 32 i)).isSome then
    some (if toCard then
      { t with
        disk := assignAll t.disk (turns (fun i => t.offset + BitVec.ofNat 32 i)
          (fun i => (t.memory (addr + BitVec.ofNat 32 i)).getD 0) count)
        offset := t.offset + BitVec.ofNat 32 count }
    else
      { t with
        memory := assignAll t.memory (turns (fun i => addr + BitVec.ofNat 32 i)
          (fun i => some (fifoByte elements (t.sent + i))) count)
        sent := t.sent + count })
  else none

/-- The lines that are reached from an address up to the first one with the end flag, all of them
valid, and what they move. -/
inductive Walk (toCard : Bool) (elements : List (BitVec 32)) :
    BitVec 32 → Stream → List Descriptor → BitVec 32 → Stream → Prop
  | last {address : BitVec 32} {t t' : Stream} {word : Word64}
      (hread : dmaRead t.memory address = some word) (hvalid : (descriptor word).valid = true)
      (hend : (descriptor word).atEnd = true)
      (hmove : t.move toCard elements (descriptor word).addr (descriptor word).moves = some t') :
      Walk toCard elements address t [descriptor word] ((descriptor word).next address) t'
  | next {address final : BitVec 32} {t t' t'' : Stream} {word : Word64} {lines : List Descriptor}
      (hread : dmaRead t.memory address = some word) (hvalid : (descriptor word).valid = true)
      (hend : (descriptor word).atEnd = false)
      (hmove : t.move toCard elements (descriptor word).addr (descriptor word).moves = some t')
      (hrest : Walk toCard elements ((descriptor word).next address) t' lines final t'') :
      Walk toCard elements address t (descriptor word :: lines) final t''

variable {toCard : Bool} {elements : List (BitVec 32)} {address addr final : BitVec 32}
  {t t' t'' : Stream} {lines lines' : List Descriptor} {s s' : SdioCbg} {memory : Memory}

/-- A table has one walk. -/
theorem Walk.unique {final' : BitVec 32} (hwalk : Walk toCard elements address t lines final t')
    (hother : Walk toCard elements address t lines' final' t'') :
    lines = lines' ∧ final = final' ∧ t' = t'' := by
  induction hwalk generalizing lines' final' t'' with
  | last hread hvalid hend hmove =>
      cases hother with
      | last hread' hvalid' hend' hmove' =>
          cases hread.symm.trans hread'
          cases hmove.symm.trans hmove'
          exact ⟨rfl, rfl, rfl⟩
      | next hread' hvalid' hend' hmove' hrest' =>
          cases hread.symm.trans hread'
          rw [hend] at hend'
          cases hend'
  | next hread hvalid hend hmove hrest ih =>
      cases hother with
      | last hread' hvalid' hend' hmove' =>
          cases hread.symm.trans hread'
          rw [hend] at hend'
          cases hend'
      | next hread' hvalid' hend' hmove' hrest' =>
          cases hread.symm.trans hread'
          cases hmove.symm.trans hmove'
          obtain ⟨rfl, rfl, rfl⟩ := ih hrest'
          exact ⟨rfl, rfl, rfl⟩

theorem Stream.move_zero (t : Stream) (addr : BitVec 32) :
    t.move toCard elements addr 0 = some t := by
  have hnone : ∀ i < 0, (t.memory (addr + BitVec.ofNat 32 i)).isSome := fun i hi =>
    absurd hi (Nat.not_lt_zero i)
  have hoffset : t.offset + BitVec.ofNat 32 0 = t.offset := BitVec.add_zero t.offset
  rw [Stream.move, if_pos hnone, hoffset]
  cases toCard <;> rfl

/-! ## Doublewords -/

/-- Places that answer go on to answer. -/
theorem isSome_assignAll {place : ℕ → BitVec 32} {content : ℕ → Byte} {a : BitVec 32}
    (hanswers : (memory a).isSome) (n : ℕ) :
    (assignAll memory (turns place (fun i => some (content i)) n) a).isSome := by
  induction n with
  | zero => exact hanswers
  | succ n ih =>
      rw [assignAll_turns_succ]
      by_cases hplace : a = place n
      · rw [hplace, Function.update_self]
        rfl
      · rw [Function.update_of_ne hplace]
        exact ih

/-- A doubleword is written byte by byte. -/
theorem dmaWrite_eq (data : Word64)
    (hanswers : ∀ i < 8, (memory (address + BitVec.ofNat 32 i)).isSome) :
    dmaWrite memory address data = some (assignAll memory (turns
      (fun i => address + BitVec.ofNat 32 i) (fun i => some (bytes64 data i)) 8)) := by
  have hfirst : ∀ n ≤ 8, (List.range n).foldlM (fun (memory : Memory) (i : ℕ) =>
      let at' := address + BitVec.ofNat 32 i
      if (memory at').isSome then some (Function.update memory at' (some (bytes64 data i)))
      else none) memory = some (assignAll memory (turns (fun i => address + BitVec.ofNat 32 i)
        (fun i => some (bytes64 data i)) n)) := by
    intro n
    induction n with
    | zero =>
        intro _
        rfl
    | succ n ih =>
        intro hn
        rw [List.range_succ, List.foldlM_append, ih (Nat.le_of_succ_le hn),
          assignAll_turns_succ]
        simp only [Option.bind_eq_bind, Option.bind_some, List.foldlM_cons, List.foldlM_nil,
          Option.pure_def]
        rw [if_pos (isSome_assignAll (hanswers n hn) n)]
        rfl
  exact hfirst 8 (Nat.le_refl 8)

theorem mapM_eq_map {α β : Type*} {f : α → Option β} {items : List α} (value : β)
    (hsome : ∀ item ∈ items, (f item).isSome) :
    items.mapM f = some (items.map fun item => (f item).getD value) := by
  induction items with
  | nil => rfl
  | cons item items ih =>
      obtain ⟨first, hfirst⟩ := Option.isSome_iff_exists.mp (hsome item List.mem_cons_self)
      have hrest := ih fun other hother => hsome other (List.mem_cons_of_mem item hother)
      rw [List.mapM_cons, hrest, List.map_cons, hfirst]
      rfl

/-- A doubleword is read byte by byte. -/
theorem dmaRead_bytes (hanswers : ∀ i < 8, (memory (address + BitVec.ofNat 32 i)).isSome) :
    ∃ data, dmaRead memory address = some data ∧
      ∀ i < 8, bytes64 data i = (memory (address + BitVec.ofNat 32 i)).getD 0 := by
  have hall : ∀ i ∈ List.range 8, (memory (address + BitVec.ofNat 32 i)).isSome := fun i hi =>
    hanswers i (List.mem_range.mp hi)
  rw [dmaRead, mapM_eq_map 0 hall]
  refine ⟨_, rfl, fun i hi => ?_⟩
  have hlength : i < (List.range 8).length := by rwa [List.length_range]
  rw [bytes64_load64 _ hi]
  simp [List.getElem?_range hi]

theorem bytes64_append (high low : BitVec 32) {j : ℕ} (hj : j < 8) :
    bytes64 (high ++ low) j = bytes32 (if j < 4 then low else high) (j % 4) := by
  apply BitVec.eq_of_getLsbD_eq
  intro k hk
  simp only [bytes64, bytes32, BitVec.getLsbD_extractLsb', BitVec.getLsbD_append, hk,
    decide_true, Bool.true_and]
  split_ifs with hlow hfour hfour
  · congr 1
    omega
  · omega
  · omega
  · congr 1
    omega

/-! ## Transfers -/

/-- The buffer that is pointed to was filled with the elements, and is not freed. -/
def Holds (s : SdioCbg) (elements : List (BitVec 32)) : Prop :=
  ∃ i buffer, s.rxFifo = some i ∧ s.buffers[i]? = some buffer ∧ buffer.freed = 0 ∧
    buffer.filled = elements

theorem fifoElement_eq (hholds : Holds s elements) (index : BitVec 32) :
    s.fifoElement index = elements[index.toNat]? := by
  obtain ⟨i, buffer, hcurrent, hbuffer, hfreed, hfilled⟩ := hholds
  rw [fifoElement, hcurrent]
  simp only [Option.bind_eq_bind, Option.bind_some, hbuffer, hfreed, hfilled, if_true]

/-- Two elements of the buffer, as the bytes of a doubleword. -/
theorem bytes64_elements (elements : List (BitVec 32)) (k : ℕ) {j : ℕ} (hj : j < 8) :
    bytes64 (elements.getD (k + 1) 0 ++ elements.getD k 0) j = fifoByte elements (4 * k + j) := by
  have hmod : (4 * k + j) % 4 = j % 4 := by omega
  rw [bytes64_append _ _ hj, fifoByte, hmod]
  split_ifs with hlow
  · have hplace : (4 * k + j) / 4 = k := by omega
    rw [hplace]
  · have hplace : (4 * k + j) / 4 = k + 1 := by omega
    rw [hplace]

/-- The address of a byte of a doubleword of a transfer. -/
theorem place_eq (addr : BitVec 32) (i j : ℕ) :
    addr + BitVec.ofNat 32 (i * 8) + BitVec.ofNat 32 j = addr + BitVec.ofNat 32 (8 * i + j) := by
  rw [BitVec.add_assoc, ← BitVec.ofNat_add, Nat.mul_comm]

/-- A doubleword is sent. -/
theorem sendWord_eq {i : ℕ} (hholds : Holds s elements) (hlength : elements.length < 2 ^ 32)
    (hfilled : s.rxFifoIdx.toNat + 2 * i + 2 ≤ elements.length)
    (hanswers : ∀ j < 8, (s.memory (addr + BitVec.ofNat 32 (8 * i + j))).isSome) :
    s.sendWord addr i = some { s with
      memory := assignAll s.memory (turns (fun j => addr + BitVec.ofNat 32 (8 * i + j))
        (fun j => some (fifoByte elements (4 * s.rxFifoIdx.toNat + (8 * i + j)))) 8) } := by
  have helement (k : ℕ) (hk : k < 2) :
      s.fifoElement (BitVec.ofNat 32 (2 * i + k) + s.rxFifoIdx) =
        some (elements.getD (s.rxFifoIdx.toNat + 2 * i + k) 0) := by
    have hindex : (BitVec.ofNat 32 (2 * i + k) + s.rxFifoIdx).toNat =
        s.rxFifoIdx.toNat + 2 * i + k := by
      rw [BitVec.toNat_add, BitVec.toNat_ofNat]
      omega
    have hlt : s.rxFifoIdx.toNat + 2 * i + k < elements.length := by omega
    rw [fifoElement_eq hholds, hindex, List.getElem?_eq_getElem hlt, List.getD_eq_getElem _ _ hlt]
  have hplaces : (fun j => addr + BitVec.ofNat 32 (i * 8) + BitVec.ofNat 32 j) =
      fun j => addr + BitVec.ofNat 32 (8 * i + j) := by
    funext j
    exact place_eq addr i j
  have hanswers' : ∀ j < 8, (s.memory (addr + BitVec.ofNat 32 (i * 8) +
      BitVec.ofNat 32 j)).isSome := by
    intro j hj
    rw [place_eq]
    exact hanswers j hj
  have hhigh := helement 1 (by decide)
  have hlow := helement 0 (by decide)
  rw [Nat.add_zero, Nat.add_zero] at hlow
  have hbytes : turns (fun j => addr + BitVec.ofNat 32 (8 * i + j))
      (fun j => some (bytes64 (elements.getD (s.rxFifoIdx.toNat + 2 * i + 1) 0 ++
        elements.getD (s.rxFifoIdx.toNat + 2 * i) 0) j)) 8 =
      turns (fun j => addr + BitVec.ofNat 32 (8 * i + j))
        (fun j => some (fifoByte elements (4 * s.rxFifoIdx.toNat + (8 * i + j)))) 8 := by
    apply turns_congr
    intro j hj
    have hplace : 4 * s.rxFifoIdx.toNat + (8 * i + j) = 4 * (s.rxFifoIdx.toNat + 2 * i) + j := by
      omega
    rw [bytes64_elements elements _ hj, hplace]
  simp only [sendWord, Option.bind_eq_bind]
  rw [hhigh, hlow, Option.bind_some, Option.bind_some, dmaWrite_eq _ hanswers', hplaces, hbytes]
  rfl

/-- The loop of a transfer from the card. -/
theorem transferWords_send (hsends : s.opState ≠ .rcv) (hholds : Holds s elements)
    (hlength : elements.length < 2 ^ 32) (n : ℕ)
    (hfilled : s.rxFifoIdx.toNat + 2 * n ≤ elements.length)
    (hanswers : ∀ i < 8 * n, (s.memory (addr + BitVec.ofNat 32 i)).isSome) :
    (List.range n).foldlM (fun (s : SdioCbg) i =>
      if s.opState = .rcv then s.receiveWord addr i else s.sendWord addr i) s =
      some { s with
        memory := assignAll s.memory (turns (fun i => addr + BitVec.ofNat 32 i)
          (fun i => some (fifoByte elements (4 * s.rxFifoIdx.toNat + i))) (8 * n)) } := by
  induction n with
  | zero => rfl
  | succ n ih =>
      have hfirst := ih (by omega) fun i hi => hanswers i (by omega)
      rw [List.range_succ, List.foldlM_append, hfirst]
      simp only [Option.bind_eq_bind, Option.bind_some, List.foldlM_cons, List.foldlM_nil,
        if_neg hsends]
      have hword := sendWord_eq (s := { s with
        memory := assignAll s.memory (turns (fun i => addr + BitVec.ofNat 32 i)
          (fun i => some (fifoByte elements (4 * s.rxFifoIdx.toNat + i))) (8 * n)) })
        hholds hlength hfilled fun j hj =>
          isSome_assignAll (hanswers (8 * n + j) (by omega)) (8 * n)
      rw [hword, Option.bind_some, Nat.mul_succ, turns_add, assignAll_append]
      rfl

theorem byte_eq_shift (data : Word64) (j : ℕ) :
    (data >>> (j * 8)).setWidth 8 = bytes64 data j := by
  apply BitVec.eq_of_getLsbD_eq
  intro k hk
  rw [bytes64, BitVec.getLsbD_setWidth, BitVec.getLsbD_ushiftRight, BitVec.getLsbD_extractLsb',
    Nat.mul_comm]

/-- A doubleword is stored in the first block.  Behind it the shifts have no result. -/
theorem storeBytes_eq (hoffset : s.blockOffset = 0) (data : Word64) {n : ℕ} (hn : n ≤ 8) :
    ((List.range n).map fun j : ℕ => s.blockOffset + BitVec.ofNat 32 j).foldlM
      (storeByte data) s = some { s with
        dataVdd := assignAll s.dataVdd (turns (fun j => s.blockOffset + BitVec.ofNat 32 j)
          (bytes64 data) n) } := by
  induction n with
  | zero => rfl
  | succ n ih =>
      have hplace : (0 : BitVec 32) + BitVec.ofNat 32 n = BitVec.ofNat 32 n := BitVec.zero_add _
      have hbelow : (BitVec.ofNat 32 n).toNat = n := by
        rw [BitVec.toNat_ofNat]
        omega
      rw [List.range_succ, List.map_append, List.foldlM_append, ih (Nat.le_of_succ_le hn),
        assignAll_turns_succ]
      simp only [Option.bind_eq_bind, Option.bind_some, List.map_cons, List.map_nil,
        List.foldlM_cons, List.foldlM_nil, Option.pure_def, storeByte, hoffset, hplace, hbelow]
      rw [if_pos (Nat.lt_of_succ_le hn), byte_eq_shift]
      rfl

/-- A transfer of one doubleword to the first block. -/
theorem transferWords_receive (hreceives : s.opState = .rcv) (hoffset : s.blockOffset = 0)
    (hanswers : ∀ i < 8, (s.memory (addr + BitVec.ofNat 32 i)).isSome) :
    s.transferWords addr 8 = some { s with
      dataVdd := assignAll s.dataVdd (turns (fun i => s.blockOffset + BitVec.ofNat 32 i)
        (fun i => (s.memory (addr + BitVec.ofNat 32 i)).getD 0) 8)
      blockOffset := s.blockOffset + 8 } := by
  obtain ⟨data, hread, hbytes⟩ := dmaRead_bytes hanswers
  have haddr : addr + BitVec.ofNat 32 (0 * 8) = addr := BitVec.add_zero addr
  have hrounds : (s.blockOffset + 8).toNat - s.blockOffset.toNat = 8 := by
    rw [hoffset]
    rfl
  have hword : s.receiveWord addr 0 = some { s with
      dataVdd := assignAll s.dataVdd (turns (fun i => s.blockOffset + BitVec.ofNat 32 i)
        (bytes64 data) 8)
      blockOffset := s.blockOffset + 8 } := by
    simp only [receiveWord, Option.bind_eq_bind, haddr, hread, Option.bind_some, hrounds]
    rw [storeBytes_eq hoffset data (Nat.le_refl 8)]
    rfl
  have hone : (List.range (8 / 8)) = [0] := rfl
  rw [transferWords, hone]
  simp only [List.foldlM_cons, List.foldlM_nil, if_pos hreceives, hword, turns_congr hbytes]
  rfl

/-! ## Lines -/

/-- The controller works on the stream, and can move what was requested: the buffer holds it, or
it is the first doubleword of the first block. -/
structure Follows (s : SdioCbg) (elements : List (BitVec 32)) (t : Stream) : Prop where
  memory : s.memory = t.memory
  disk : s.dataVdd = t.disk
  offset : s.blockOffset = t.offset
  length : elements.length < 2 ^ 32
  holds : s.opState ≠ .rcv → 0 < s.requested → Holds s elements
  sent : s.opState ≠ .rcv → 0 < s.requested →
    4 * s.rxFifoIdx.toNat = t.sent ∧ t.sent + s.requested ≤ 4 * elements.length
  first : s.opState = .rcv → 0 < s.requested → s.blockOffset = 0 ∧ s.requested = 8

/-- The state behind the doublewords of a transfer. -/
def moved (s : SdioCbg) (t : Stream) : SdioCbg :=
  { s with memory := t.memory, dataVdd := t.disk, blockOffset := t.offset }

theorem Stream.move_eq {count : ℕ} (hmove : t.move toCard elements addr count = some t') :
    (∀ i < count, (t.memory (addr + BitVec.ofNat 32 i)).isSome) ∧
      t' = if toCard then
        { t with
          disk := assignAll t.disk (turns (fun i => t.offset + BitVec.ofNat 32 i)
            (fun i => (t.memory (addr + BitVec.ofNat 32 i)).getD 0) count)
          offset := t.offset + BitVec.ofNat 32 count }
      else
        { t with
          memory := assignAll t.memory (turns (fun i => addr + BitVec.ofNat 32 i)
            (fun i => some (fifoByte elements (t.sent + i))) count)
          sent := t.sent + count } := by
  rw [Stream.move] at hmove
  obtain ⟨hanswers, heq⟩ := Option.ite_none_right_eq_some.mp hmove
  exact ⟨hanswers, (Option.some.inj heq).symm⟩

/-- The loop of a transfer moves the bytes. -/
theorem transferWords_moves {count : ℕ} (hfollows : Follows s elements t)
    (hcard : toCard = decide (s.opState = .rcv)) (hpos : 0 < count) (height : 8 ∣ count)
    (hle : count ≤ s.requested) (hmove : t.move toCard elements addr count = some t') :
    s.transferWords addr count = some (moved s t') := by
  obtain ⟨hanswers, ht'⟩ := Stream.move_eq hmove
  obtain ⟨hmemory, hdisk, hoffset, hlength, hholds, hsent, hfirst⟩ := hfollows
  have hrequested : 0 < s.requested := hpos.trans_le hle
  rw [← hmemory] at hanswers
  by_cases hreceives : s.opState = .rcv
  · obtain ⟨hblock, hbytes⟩ := hfirst hreceives hrequested
    have hcount : count = 8 := by omega
    subst hcount
    rw [hcard, if_pos (decide_eq_true hreceives), ← hmemory, ← hdisk, ← hoffset] at ht'
    rw [transferWords_receive hreceives hblock hanswers, ht', moved]
    rfl
  · obtain ⟨hidx, hfits⟩ := hsent hreceives hrequested
    obtain ⟨n, rfl⟩ := height
    have hn : 8 * n / 8 = n := Nat.mul_div_cancel_left n (by decide)
    have hfilled : s.rxFifoIdx.toNat + 2 * n ≤ elements.length := by omega
    have hnot : decide (s.opState = .rcv) = false := decide_eq_false hreceives
    rw [hcard, hnot, ← hmemory, ← hidx] at ht'
    rw [transferWords, hn,
      transferWords_send hreceives (hholds hreceives hrequested) hlength n hfilled hanswers, ht',
      moved, ← hdisk, ← hoffset]
    rfl

/-- What a state has left once all that was requested was moved. -/
def finished (s : SdioCbg) : SdioCbg := if 0 < s.requested then s.dropFifo else s

/-- The blocks of a part of what was requested. -/
theorem requested_sub {count : ℕ} (hblocks : s.blockSize.toNat ∣ count)
    (hlt : count < s.requested) :
    s.blockSize.toNat * (s.blockCount - BitVec.ofNat 16 (count / s.blockSize.toNat)).toNat =
      s.requested - count := by
  obtain ⟨n, rfl⟩ := hblocks
  rw [requested] at hlt ⊢
  have hsize : 0 < s.blockSize.toNat := by
    rw [Nat.pos_iff_ne_zero]
    intro hzero
    rw [hzero, Nat.zero_mul, Nat.zero_mul] at hlt
    exact Nat.lt_irrefl 0 hlt
  have hn : n < s.blockCount.toNat := Nat.lt_of_mul_lt_mul_left hlt
  have hcount := s.blockCount.isLt
  have hsub : (s.blockCount - BitVec.ofNat 16 n).toNat = s.blockCount.toNat - n := by
    rw [BitVec.toNat_sub, BitVec.toNat_ofNat]
    omega
  rw [Nat.mul_div_cancel_left n hsize, hsub, Nat.mul_sub]

/-- What is left behind a transfer. -/
structure Remains (s s₁ : SdioCbg) (t : Stream) (count : ℕ) : Prop where
  host : s₁.toHostRegisters = s.toHostRegisters
  opState : s₁.opState = s.opState
  requested : s₁.requested = s.requested - count
  blockSize : 0 < s₁.requested → s₁.blockSize = s.blockSize
  finished : finished s₁ = moved s.dropFifo t

/-- A line that transfers moves its bytes and leaves the rest. -/
theorem adma2Tfr_moves {len : BitVec 16} (hfollows : Follows s elements t)
    (hcard : toCard = decide (s.opState = .rcv)) (hgap : s.control.getLsbD 16 = false)
    (height : 8 ∣ transferLength len) (hpos : 0 < transferLength len)
    (hblocks : s.blockSize.toNat ∣ transferLength len) (hle : transferLength len ≤ s.requested)
    (hmove : t.move toCard elements addr (transferLength len) = some t') :
    ∃ s₁, s.adma2Tfr addr len = some s₁ ∧ Remains s s₁ t' (transferLength len) ∧
      Follows s₁ elements t' := by
  have hwords := transferWords_moves hfollows hcard hpos height hle hmove
  have hboth : transferLength len ≤ s.requested ∧ transferLength len % 8 = 0 :=
    ⟨hle, Nat.mod_eq_zero_of_dvd height⟩
  rw [adma2Tfr, if_pos hboth, hwords, Option.bind_some]
  obtain ⟨-, ht'⟩ := Stream.move_eq hmove
  generalize transferLength len = count at *
  rcases Nat.lt_or_ge count s.requested with hlt | hge
  · -- some blocks are left
    have hmod : count % s.blockSize.toNat = 0 := Nat.mod_eq_zero_of_dvd hblocks
    have hrequested : (0 : ℕ) < s.requested - count := Nat.sub_pos_of_lt hlt
    let s₁ : SdioCbg := { moved s t' with
      rxFifoIdx := s.rxFifoIdx + BitVec.ofNat 32 (count / 8 * 2)
      blockCount := s.blockCount - BitVec.ofNat 16 (count / s.blockSize.toNat) }
    have hleft : s₁.requested = s.requested - count := requested_sub hblocks hlt
    have hcounted : countBlocks { moved s t' with
        rxFifoIdx := s.rxFifoIdx + BitVec.ofNat 32 (count / 8 * 2) } count = some s₁ := by
      rw [countBlocks]
      exact (if_pos hlt).trans (if_pos hmod)
    have hopen : ¬s₁.control.getLsbD 16 := Bool.eq_false_iff.mp hgap
    refine ⟨s₁, ?_, ⟨rfl, rfl, hleft, fun _ => rfl, ?_⟩, ?_⟩
    · exact (congrArg (Option.bind · _) hcounted).trans (if_neg hopen)
    · rw [finished, if_pos (hleft ▸ hrequested)]
      rfl
    · constructor
      case memory => rfl
      case disk => rfl
      case offset => rfl
      case length => exact hfollows.length
      case holds =>
          intro hsends _
          exact hfollows.holds hsends (hpos.trans_le hle)
      case sent =>
          intro hsends _
          obtain ⟨hidx, hfits⟩ := hfollows.sent hsends (hpos.trans_le hle)
          have hnot : decide (s.opState = .rcv) = false := decide_eq_false hsends
          have hlength := hfollows.length
          have hadd : (s.rxFifoIdx + BitVec.ofNat 32 (count / 8 * 2)).toNat =
              s.rxFifoIdx.toNat + count / 8 * 2 := by
            rw [BitVec.toNat_add, BitVec.toNat_ofNat]
            omega
          have hsent : t'.sent = t.sent + count := by
            rw [ht', hcard, hnot]
            rfl
          rw [hleft, hsent]
          have hmoved : 4 * (s.rxFifoIdx + BitVec.ofNat 32 (count / 8 * 2)).toNat =
              t.sent + count := by
            rw [hadd]
            omega
          refine ⟨hmoved, ?_⟩
          omega
      case first =>
          intro hreceives _
          obtain ⟨-, hbytes⟩ := hfollows.first hreceives (hpos.trans_le hle)
          omega
  · -- all that was requested was moved
    have hnot : ¬count < s.requested := Nat.not_lt.mpr hge
    have hcounted : countBlocks { moved s t' with
        rxFifoIdx := s.rxFifoIdx + BitVec.ofNat 32 (count / 8 * 2) } count =
          some (moved s.dropFifo t') := by
      rw [countBlocks]
      exact if_neg hnot
    have hnone : (moved s.dropFifo t').requested = 0 := rfl
    have hopen : ¬(moved s.dropFifo t').control.getLsbD 16 := Bool.eq_false_iff.mp hgap
    have hall : s.requested - count = 0 := Nat.sub_eq_zero_of_le hge
    refine ⟨moved s.dropFifo t', ?_, ⟨rfl, rfl, hnone.trans hall.symm, ?_, ?_⟩, ?_⟩
    · exact (congrArg (Option.bind · _) hcounted).trans (if_neg hopen)
    · intro hlater
      exact absurd hnone hlater.ne'
    · rw [finished, if_neg (hnone ▸ Nat.lt_irrefl 0)]
    · exact ⟨rfl, rfl, rfl, hfollows.length, fun _ hlater => absurd hnone hlater.ne',
        fun _ hlater => absurd hnone hlater.ne', fun _ hlater => absurd hnone hlater.ne'⟩

/-! ## Walks -/

theorem transferLength_pos (len : BitVec 16) : 0 < transferLength len := by
  rw [transferLength]
  split_ifs with hzero
  · decide
  · rw [Nat.pos_iff_ne_zero]
    exact fun hlen => hzero (BitVec.eq_of_toNat_eq hlen)

/-- The transfers of a table are of whole blocks and doublewords, and together they are what was
requested. -/
structure Sized (s : SdioCbg) (lines : List Descriptor) : Prop where
  doublewords : ∀ line ∈ lines, 8 ∣ line.moves
  blocks : 0 < s.requested → ∀ line ∈ lines, s.blockSize.toNat ∣ line.moves
  sum : (lines.map Descriptor.moves).sum = s.requested

/-- The controller walks a table whose lines have the end flag if and only if they do not
transfer. -/
theorem walk_performs (hwalk : Walk toCard elements address t lines final t')
    (haddress : s.admaSystemAddress = address) (hcard : toCard = decide (s.opState = .rcv))
    (hgap : s.control.getLsbD 16 = false) (hfollows : Follows s elements t)
    (hends : ∀ line ∈ lines, line.atEnd = true ↔ line.act ≠ 2) (hsized : Sized s lines)
    {fuel : ℕ} (hfuel : lines.length ≤ fuel) :
    adma2Fds fuel s =
      some { moved (finished s) t' with admaSystemAddress := final } := by
  induction hwalk generalizing s fuel with
  | @last address t t' word hread hvalid hend hmove =>
      cases fuel with
      | zero => exact absurd hfuel (Nat.not_succ_le_zero _)
      | succ fuel =>
          have hact : (descriptor word).act ≠ 2 := (hends _ List.mem_cons_self).mp hend
          have hmoves : (descriptor word).moves = 0 := if_neg hact
          have hnone : s.requested = 0 := by
            rw [← hsized.sum, List.map_singleton, List.sum_singleton, hmoves]
          rw [hmoves, Stream.move_zero] at hmove
          cases hmove
          rw [finished, hnone, if_neg (Nat.lt_irrefl 0), moved, ← hfollows.memory,
            ← hfollows.disk, ← hfollows.offset]
          rw [← haddress, ← hfollows.memory] at hread
          simp only [adma2Fds, Option.bind_eq_bind, hread, Option.bind_some, hvalid, hend, hact,
            if_true, not_true, and_false, if_false, ne_eq, not_false_eq_true, and_true]
          rw [Descriptor.next, nextAddress, haddress]
  | @next address final t t' t'' word lines hread hvalid hend hmove hrest ih =>
      cases fuel with
      | zero => exact absurd hfuel (Nat.not_succ_le_zero _)
      | succ fuel =>
          have hact : (descriptor word).act = 2 := by
            by_contra hne
            rw [(hends _ List.mem_cons_self).mpr hne] at hend
            cases hend
          have hmoves : (descriptor word).moves = transferLength (descriptor word).length :=
            if_pos hact
          have hpos := transferLength_pos (descriptor word).length
          have hsum : transferLength (descriptor word).length +
              (lines.map Descriptor.moves).sum = s.requested := by
            rw [← hmoves, ← List.sum_cons, ← List.map_cons]
            exact hsized.sum
          have hle : transferLength (descriptor word).length ≤ s.requested := by omega
          have hrequested : 0 < s.requested := hpos.trans_le hle
          let s₀ : SdioCbg := { s with admaSystemAddress := s.nextAddress (descriptor word) }
          have hfollows₀ : Follows s₀ elements t :=
            ⟨hfollows.memory, hfollows.disk, hfollows.offset, hfollows.length, hfollows.holds,
              hfollows.sent, hfollows.first⟩
          rw [hmoves] at hmove
          have height := hsized.doublewords _ List.mem_cons_self
          have hblocks := hsized.blocks hrequested _ List.mem_cons_self
          rw [hmoves] at height hblocks
          obtain ⟨s₁, htfr, hremains, hfollows₁⟩ :=
            adma2Tfr_moves hfollows₀ hcard hgap height hpos hblocks hle hmove
          have hleft : s₁.requested = s.requested - transferLength (descriptor word).length :=
            hremains.requested
          have hsized₁ : Sized s₁ lines := by
            constructor
            case doublewords =>
                intro line hline
                exact hsized.doublewords line (List.mem_cons_of_mem _ hline)
            case blocks =>
                intro hlater line hline
                rw [hremains.blockSize hlater]
                exact hsized.blocks hrequested line (List.mem_cons_of_mem _ hline)
            case sum =>
                rw [hleft]
                omega
          have haddress₁ : s₁.admaSystemAddress = (descriptor word).next address := by
            rw [hremains.host, ← haddress]
            rfl
          have hrun := ih haddress₁ (by rw [hremains.opState]; exact hcard)
            (by rw [hremains.host]; exact hgap) hfollows₁
            (fun line hline => hends line (List.mem_cons_of_mem _ hline)) hsized₁
            (Nat.le_of_succ_le_succ hfuel)
          have hall : finished s = s.dropFifo := if_pos hrequested
          rw [← haddress, ← hfollows.memory] at hread
          simp only [adma2Fds, Option.bind_eq_bind, hread, Option.bind_some, hvalid, hend, hact,
            if_true, Bool.false_eq_true, not_false_eq_true, and_self]
          rw [htfr, Option.bind_some, hrun, hremains.finished, hall]
          rfl

/-! ## How many lines are read -/

theorem transferWords_blocks {length : ℕ} (hwords : s.transferWords addr length = some s') :
    s'.blockSize = s.blockSize ∧ s'.blockCount = s.blockCount := by
  have hstore (data : Word64) (current : SdioCbg) (j : BitVec 32) (next : SdioCbg)
      (hinv : current.blockSize = s.blockSize ∧ current.blockCount = s.blockCount)
      (hstep : storeByte data current j = some next) :
      next.blockSize = s.blockSize ∧ next.blockCount = s.blockCount := by
    simp only [storeByte] at hstep
    split_ifs at hstep
    cases hstep
    exact hinv
  have hword (current : SdioCbg) (i : ℕ) (next : SdioCbg)
      (hinv : current.blockSize = s.blockSize ∧ current.blockCount = s.blockCount)
      (hstep : (if current.opState = .rcv then current.receiveWord addr i
        else current.sendWord addr i) = some next) :
      next.blockSize = s.blockSize ∧ next.blockCount = s.blockCount := by
    split_ifs at hstep
    · simp only [receiveWord, Option.bind_eq_bind, Option.bind_eq_some_iff] at hstep
      obtain ⟨data, -, stored, hstored, hnext⟩ := hstep
      have hkept := Guarded.foldlM_keeps
        (fun current j next _ => hstore data current j next) hinv hstored
      cases hnext
      exact hkept
    · simp only [sendWord, Option.bind_eq_bind, Option.bind_eq_some_iff] at hstep
      obtain ⟨high, -, low, -, memory, -, hnext⟩ := hstep
      cases hnext
      exact hinv
  exact Guarded.foldlM_keeps (fun current i next _ => hword current i next) ⟨rfl, rfl⟩ hwords

/-- A transfer takes at least one block. -/
theorem adma2Tfr_blockCount_lt {len : BitVec 16} (htfr : s.adma2Tfr addr len = some s') :
    s'.blockCount.toNat < s.blockCount.toNat := by
  rw [adma2Tfr] at htfr
  obtain ⟨⟨hle, -⟩, htfr⟩ := Option.ite_none_right_eq_some.mp htfr
  obtain ⟨words, hwords, htfr⟩ := Option.bind_eq_some_iff.mp htfr
  obtain ⟨counted, hcounted, htfr⟩ := Option.bind_eq_some_iff.mp htfr
  obtain ⟨-, hs'⟩ := Option.ite_none_left_eq_some.mp htfr
  cases hs'
  obtain ⟨hsize, hcount⟩ := transferWords_blocks hwords
  have hpos := transferLength_pos len
  generalize transferLength len = length at *
  have hrequested : 0 < s.requested := hpos.trans_le hle
  have hblocks : 0 < s.blockCount.toNat := Nat.pos_of_mul_pos_left hrequested
  have hbytes : 0 < s.blockSize.toNat := Nat.pos_of_mul_pos_right hrequested
  rw [countBlocks] at hcounted
  split_ifs at hcounted with hlt hmod
  · cases hcounted
    have hdvd : s.blockSize.toNat ∣ length := by
      rw [← hsize]
      exact Nat.dvd_of_mod_eq_zero hmod
    have hone : 0 < length / s.blockSize.toNat := Nat.div_pos (Nat.le_of_dvd hpos hdvd) hbytes
    have hfew : length / s.blockSize.toNat ≤ s.blockCount.toNat := by
      rw [requested, Nat.mul_comm] at hle
      exact Nat.div_le_of_le_mul (Nat.mul_comm _ _ ▸ hle)
    have hword := s.blockCount.isLt
    simp only [hsize, hcount]
    rw [BitVec.toNat_sub, BitVec.toNat_ofNat]
    omega
  · cases hcounted
    exact hblocks

/-- One line for each block and one more are all that is read. -/
theorem adma2Fds_fuel {fuel fuel' : ℕ} (hfuel : s.blockCount.toNat < fuel)
    (hfuel' : s.blockCount.toNat < fuel') : adma2Fds fuel s = adma2Fds fuel' s := by
  induction fuel generalizing fuel' s with
  | zero => exact absurd hfuel (Nat.not_lt_zero _)
  | succ fuel ih =>
      cases fuel' with
      | zero => exact absurd hfuel' (Nat.not_lt_zero _)
      | succ fuel' =>
          simp only [adma2Fds, Option.bind_eq_bind]
          congr 1
          funext word
          split_ifs
          · cases htfr : SdioCbg.adma2Tfr { s with
              admaSystemAddress := s.nextAddress (descriptor word) } (descriptor word).addr
              (descriptor word).length with
            | none => rfl
            | some s₁ =>
                have hless := adma2Tfr_blockCount_lt htfr
                rw [Option.bind_some, Option.bind_some]
                apply ih
                · exact hless.trans_le (Nat.le_of_lt_succ hfuel)
                · exact hless.trans_le (Nat.le_of_lt_succ hfuel')
          · rfl
          · rfl
          · rfl

/-- `do_adma2_fds` performs the transfers of a table. -/
theorem doAdma2Fds_performs (hwalk : Walk toCard elements s.admaSystemAddress t lines final t')
    (hcard : toCard = decide (s.opState = .rcv)) (hgap : s.control.getLsbD 16 = false)
    (hfollows : Follows s elements t) (hends : ∀ line ∈ lines, line.atEnd = true ↔ line.act ≠ 2)
    (hsized : Sized s lines) :
    s.doAdma2Fds = some { moved (finished s) t' with admaSystemAddress := final } := by
  have henough : s.blockCount.toNat < s.blockCount.toNat + 1 + lines.length := by omega
  calc
    s.doAdma2Fds = adma2Fds (s.blockCount.toNat + 1 + lines.length) s :=
      adma2Fds_fuel (Nat.lt_succ_self _) henough
    _ = some { moved (finished s) t' with admaSystemAddress := final } :=
      walk_performs hwalk rfl hcard hgap hfollows hends hsized (Nat.le_add_left _ _)

end Prazor.Devices.Sdio
