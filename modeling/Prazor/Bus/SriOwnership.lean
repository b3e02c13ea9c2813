import Prazor.Core.Guarded
import Prazor.Core.Payload
import Prazor.Core.SlotPool

/-!
# Which node owns a cache line

The nodes of a platform form a ring of system request interfaces.  Each keeps a
table of the line addresses it owns, the DRAM address (slot) of each, and a
stack of slots given back.  A line belongs to the node that first touches it;
with memory migration it moves to the node that writes it or evicts it.  All
changes are made between `m_addr_table_lock->lock()` and `unlock()` without a
wait, so each is one step here.  The counts of moved lines
(`local_core_owners`, `remote_core_owners`) are only reported and are left out.
-/

namespace Prazor.Bus.Sri

/-- The constructor arguments of the nodes. -/
structure Platform (n : ℕ) where
  dataLength : ℕ
  iostartBase : Word64
  dramBase : Fin n → Word64
  migrateMemory : Fin n → Bool
  dataLength_pos : 0 < dataLength

variable {n : ℕ}

/-- A node can give a slot to each of these lines before `last_addr` wraps. -/
def Platform.Room (platform : Platform n) (touched : Finset Word64) : Prop :=
  ∀ node, (platform.dramBase node).toNat + touched.card * platform.dataLength <
    2 ^ 64 + platform.dataLength

/-- The address of a cache line in memory; i/o addresses never get here. -/
structure Line (platform : Platform n) where
  addr : Word64
  below : addr.toNat < platform.iostartBase.toNat
  aligned : platform.dataLength ∣ addr.toNat

/-- The ownership members of a node; `emptyAddr` has its back first. -/
structure Node where
  addressTable : Finset Word64
  addressMap : Word64 → Option Word64
  emptyAddr : List Word64
  lastAddr : Word64

abbrev Ring (n : ℕ) := Fin n → Node

/-- The nodes as constructed. -/
def start (platform : Platform n) : Ring n := fun node =>
  { addressTable := ∅
    addressMap := fun _ => none
    emptyAddr := []
    lastAddr := platform.dramBase node }

/-- `get_real_address`. -/
def getRealAddress (dataLength : ℕ) (node : Node) (addr : Word64) :
    Node × Word64 :=
  match node.addressMap addr with
  | some a => (node, a)
  | none =>
      match node.emptyAddr with
      | a :: rest =>
          ({ addressTable := insert addr node.addressTable
             addressMap := Function.update node.addressMap addr (some a)
             emptyAddr := rest
             lastAddr := node.lastAddr }, a)
      | [] =>
          ({ addressTable := insert addr node.addressTable
             addressMap :=
               Function.update node.addressMap addr (some node.lastAddr)
             emptyAddr := []
             lastAddr := node.lastAddr + BitVec.ofNat 64 dataLength },
            node.lastAddr)

/-- `address_table.erase`, `address_map.erase` and `empty_addr.push_back`; the
map is asserted to have the address. -/
def disown (node : Node) (addr : Word64) : Option Node :=
  (node.addressMap addr).map fun a =>
    { addressTable := node.addressTable.erase addr
      addressMap := Function.update node.addressMap addr none
      emptyAddr := a :: node.emptyAddr
      lastAddr := node.lastAddr }

/-- The nodes from `this` on, in the order of the `next` pointers. -/
def ringFrom [NeZero n] (this : Fin n) : List (Fin n) :=
  (List.finRange n).map fun k => this + k

/-- The first node from `this` on that has the address in its table. -/
def findOwner [NeZero n] (ring : Ring n) (this : Fin n) (addr : Word64) :
    Option (Fin n) :=
  (ringFrom this).find? fun node => decide (addr ∈ (ring node).addressTable)

/-- The same, leaving out `this`. -/
def findOther [NeZero n] (ring : Ring n) (this : Fin n) (addr : Word64) :
    Option (Fin n) :=
  (ringFrom this).tail.find? fun node => decide (addr ∈ (ring node).addressTable)

variable {platform : Platform n}

/-- The four places that read or move ownership. -/
inductive Op (platform : Platform n) where
  /-- A transaction is admitted by `b_transport` of `this`. -/
  | access (this : Fin n) (line : Line platform)
  /-- All acknowledgements of a write by `destNode` have come in. -/
  | disownWrite (this : Fin n) (line : Line platform) (destNode : Fin n)
  /-- All acknowledgements of an eviction have come in; `ttAddress` is the
  address of the transaction that carries the data. -/
  | disownInvalidate (this : Fin n) (line : Line platform) (ttAddress : Word64)
  /-- A write goes out to the memory. -/
  | writeOut (this : Fin n) (line : Line platform)

/-- The line a critical section is about. -/
def Op.line : Op platform → Line platform
  | .access _ line => line
  | .disownWrite _ line _ => line
  | .disownInvalidate _ line _ => line
  | .writeOut _ line => line

section Step

variable [NeZero n]

/-- `b_transport`: the owner of the line and its slot. -/
def access (platform : Platform n) (ring : Ring n) (this : Fin n)
    (a : Word64) : Ring n × Fin n × Word64 :=
  match findOwner ring this a with
  | some owner =>
      let (node, realAddr) := getRealAddress platform.dataLength (ring owner) a
      (Function.update ring owner node, owner, realAddr)
  | none =>
      let own := { ring this with
        addressTable := insert a (ring this).addressTable }
      let (node, realAddr) := getRealAddress platform.dataLength own a
      (Function.update ring this node, this, realAddr)

/-- `peq_cb`, a write by another node; the new owner is asserted not to have
the line. -/
def disownWrite (platform : Platform n) (ring : Ring n) (this : Fin n)
    (addr : Word64) (destNode : Fin n) :
    Option (Ring n × Option (Fin n × Word64)) :=
  if destNode ≠ this ∧ platform.migrateMemory this ∧
      addr ∈ (ring this).addressTable then
    (disown (ring this) addr).bind fun node =>
      let ring := Function.update ring this node
      if addr ∈ (ring destNode).addressTable then
        none
      else
        let (node, realAddr) :=
          getRealAddress platform.dataLength (ring destNode) addr
        some (Function.update ring destNode node, some (destNode, realAddr))
  else
    some (ring, none)

/-- `peq_cb`, an eviction by this node. -/
def disownInvalidate (platform : Platform n) (ring : Ring n) (this : Fin n)
    (addr ttAddress : Word64) : Option (Ring n × Option (Fin n × Word64)) :=
  if platform.migrateMemory this then
    let moved : Option (Ring n) := match findOther ring this addr with
      | some owner => (disown (ring owner) addr).map (Function.update ring owner)
      | none => some ring
    moved.bind fun ring =>
      if addr ∈ (ring this).addressTable then
        let (node, realAddr) :=
          getRealAddress platform.dataLength (ring this) addr
        if ttAddress = realAddr then
          some (Function.update ring this node, some (this, realAddr))
        else
          none
      else
        let own := { ring this with
          addressTable := insert addr (ring this).addressTable }
        let (node, realAddr) := getRealAddress platform.dataLength own addr
        some (Function.update ring this node, some (this, realAddr))
  else
    some (ring, none)

/-- `peq_cb`, before a write is sent to the memory; some node is asserted to
have the line. -/
def writeOut (platform : Platform n) (ring : Ring n) (this : Fin n)
    (addr : Word64) : Option (Ring n × Option (Fin n × Word64)) :=
  (findOwner ring this addr).map fun owner =>
    let (node, realAddr) := getRealAddress platform.dataLength (ring owner) addr
    (Function.update ring owner node, some (owner, realAddr))

/-- One critical section, with the owner and slot it found or gave. -/
def answer (ring : Ring n) : Op platform → Option (Ring n × Option (Fin n × Word64))
  | .access this line =>
      let (ring, found) := access platform ring this line.addr
      some (ring, some found)
  | .disownWrite this line destNode =>
      disownWrite platform ring this line.addr destNode
  | .disownInvalidate this line ttAddress =>
      disownInvalidate platform ring this line.addr ttAddress
  | .writeOut this line => writeOut platform ring this line.addr

/-- The nodes after one critical section; `none` when an assertion fails. -/
def step (ring : Ring n) (op : Op platform) : Option (Ring n) :=
  (answer ring op).map Prod.fst

end Step

/-! ## A node is a pool of numbered slots -/

/-- The DRAM address of a slot number. -/
def slotAt (platform : Platform n) (node : Fin n) (slot : ℕ) : Word64 :=
  platform.dramBase node + BitVec.ofNat 64 (slot * platform.dataLength)

theorem slotAt_zero (platform : Platform n) (node : Fin n) :
    slotAt platform node 0 = platform.dramBase node := by
  simp [slotAt]

theorem slotAt_succ (platform : Platform n) (node : Fin n) (slot : ℕ) :
    slotAt platform node (slot + 1) =
      slotAt platform node slot + BitVec.ofNat 64 platform.dataLength := by
  rw [slotAt, slotAt, Nat.succ_mul, BitVec.ofNat_add, BitVec.add_assoc]

/-- The map, the free list and the next slot of a node are those of a pool. -/
structure Maps (platform : Platform n) (index : Fin n) (node : Node)
    (pool : SlotPool Word64) : Prop where
  addressMap : ∀ addr,
    node.addressMap addr = (pool.slotOf addr).map (slotAt platform index)
  emptyAddr : node.emptyAddr = pool.free.map (slotAt platform index)
  lastAddr : node.lastAddr = slotAt platform index pool.next

/-- And its table holds the keys of the pool. -/
structure Represents (platform : Platform n) (index : Fin n) (node : Node)
    (pool : SlotPool Word64) : Prop extends Maps platform index node pool where
  addressTable : ∀ addr,
    addr ∈ node.addressTable ↔ pool.slotOf addr ≠ none

theorem start_represents (platform : Platform n) (index : Fin n) :
    Represents platform index (start platform index) SlotPool.empty where
  addressMap _ := rfl
  emptyAddr := rfl
  lastAddr := (slotAt_zero platform index).symm
  addressTable _ := by simp [start, SlotPool.empty]

/-- `get_real_address` takes a slot of the pool; the caller may have put the
address in the table already. -/
theorem getRealAddress_represents {index : Fin n} {node : Node}
    {pool : SlotPool Word64} {addr : Word64} (hmaps : Maps platform index node pool)
    (htable : ∀ other, pool.slotOf other ≠ none → other ∈ node.addressTable)
    (hkeys : ∀ other, other ∈ node.addressTable → other ≠ addr →
      pool.slotOf other ≠ none) :
    Represents platform index (getRealAddress platform.dataLength node addr).1
        (pool.assign addr).1 ∧
      (getRealAddress platform.dataLength node addr).2 =
        slotAt platform index (pool.assign addr).2 := by
  cases hslot : pool.slotOf addr with
  | some slot =>
      have hmap : node.addressMap addr = some (slotAt platform index slot) := by
        rw [hmaps.addressMap, hslot, Option.map_some]
      simp only [getRealAddress, hmap, SlotPool.assign, hslot]
      refine ⟨{ toMaps := hmaps, addressTable := fun other => ?_ }, trivial⟩
      refine ⟨fun hother => ?_, htable other⟩
      by_cases hsame : other = addr
      · rw [hsame, hslot]
        exact Option.some_ne_none slot
      · exact hkeys other hother hsame
  | none =>
      have hmap : node.addressMap addr = none := by
        rw [hmaps.addressMap, hslot, Option.map_none]
      have htable' : ∀ slot other, other ∈ insert addr node.addressTable ↔
          Function.update pool.slotOf addr (some slot) other ≠ none := by
        intro slot other
        by_cases hsame : other = addr
        · simp [hsame]
        · simp only [Finset.mem_insert, hsame, false_or, ne_eq, not_false_eq_true,
            Function.update_of_ne]
          exact ⟨fun hother => hkeys other hother hsame, htable other⟩
      have hmaps' : ∀ slot other,
          Function.update node.addressMap addr (some (slotAt platform index slot))
              other =
            (Function.update pool.slotOf addr (some slot) other).map
              (slotAt platform index) := by
        intro slot other
        by_cases hsame : other = addr
        · simp [hsame]
        · simpa [hsame] using hmaps.addressMap other
      cases hfree : pool.free with
      | cons slot rest =>
          have hempty : node.emptyAddr =
              slotAt platform index slot :: rest.map (slotAt platform index) := by
            rw [hmaps.emptyAddr, hfree, List.map_cons]
          simp only [getRealAddress, hmap, hempty, SlotPool.assign, hslot, hfree]
          exact ⟨{ addressMap := hmaps' slot
                   emptyAddr := rfl
                   lastAddr := hmaps.lastAddr
                   addressTable := htable' slot }, trivial⟩
      | nil =>
          have hempty : node.emptyAddr = [] := by
            rw [hmaps.emptyAddr, hfree, List.map_nil]
          simp only [getRealAddress, hmap, hempty, SlotPool.assign, hslot, hfree]
          refine ⟨{ addressMap := ?_
                    emptyAddr := rfl
                    lastAddr := ?_
                    addressTable := htable' pool.next }, hmaps.lastAddr⟩
          · rw [hmaps.lastAddr]
            exact hmaps' pool.next
          · rw [slotAt_succ, hmaps.lastAddr]

theorem disown_represents {index : Fin n} {node next : Node}
    {pool : SlotPool Word64} {addr : Word64}
    (hnode : Represents platform index node pool)
    (hdisown : disown node addr = some next) :
    ∃ slot, pool.slotOf addr = some slot ∧
      Represents platform index next (pool.release addr slot) := by
  rw [disown, Option.map_eq_some_iff] at hdisown
  obtain ⟨a, hmap, rfl⟩ := hdisown
  rw [hnode.addressMap, Option.map_eq_some_iff] at hmap
  obtain ⟨slot, hslot, rfl⟩ := hmap
  refine ⟨slot, hslot, ?_⟩
  constructor
  · constructor
    · intro other
      by_cases hsame : other = addr
      · simp [SlotPool.release, hsame]
      · simpa [SlotPool.release, hsame] using hnode.addressMap other
    · simp [SlotPool.release, hnode.emptyAddr]
    · exact hnode.lastAddr
  · intro other
    by_cases hsame : other = addr
    · simp [SlotPool.release, hsame]
    · simpa [SlotPool.release, hsame] using hnode.addressTable other

/-! ## The invariant of the ring -/

/-- The slots for the lines do not wrap around. -/
theorem toNat_slotAt {touched : Finset Word64} (hroom : platform.Room touched)
    (index : Fin n) {slot : ℕ} (hslot : slot < touched.card) :
    (slotAt platform index slot).toNat =
      (platform.dramBase index).toNat + slot * platform.dataLength := by
  have hnext : (slot + 1) * platform.dataLength ≤ touched.card * platform.dataLength :=
    Nat.mul_le_mul_right _ hslot
  rw [Nat.succ_mul] at hnext
  have hbelow := hroom index
  rw [slotAt, BitVec.toNat_add, BitVec.toNat_ofNat,
    Nat.mod_eq_of_lt (by omega : slot * platform.dataLength < 2 ^ 64),
    Nat.mod_eq_of_lt (by omega)]

theorem slotAt_injective {touched : Finset Word64} (hroom : platform.Room touched)
    (index : Fin n) {left right : ℕ} (hleft : left < touched.card)
    (hright : right < touched.card)
    (heq : slotAt platform index left = slotAt platform index right) :
    left = right := by
  have hnat := congrArg BitVec.toNat heq
  rw [toNat_slotAt hroom index hleft, toNat_slotAt hroom index hright] at hnat
  exact Nat.eq_of_mul_eq_mul_right platform.dataLength_pos (by omega)

/-- Every node is a pool whose keys are lines that have been touched, and no line is
in two. -/
structure RingInv (platform : Platform n) (touched : Finset Word64) (ring : Ring n)
    (pools : Fin n → SlotPool Word64) : Prop where
  represents : ∀ index, Represents platform index (ring index) (pools index)
  pool : ∀ index, (pools index).Inv
  next_le : ∀ index, (pools index).next ≤ touched.card
  line : ∀ index addr, (pools index).slotOf addr ≠ none → addr ∈ touched
  owner : ∀ left right addr, (pools left).slotOf addr ≠ none →
    (pools right).slotOf addr ≠ none → left = right

variable {touched : Finset Word64}

theorem start_ringInv (platform : Platform n) (touched : Finset Word64) :
    RingInv platform touched (start platform) fun _ => SlotPool.empty where
  represents := start_represents platform
  pool _ := SlotPool.empty_inv
  next_le _ := Nat.zero_le _
  line _ _ hslot := absurd rfl hslot
  owner _ _ _ hslot := absurd rfl hslot

theorem RingInv.assign {ring : Ring n} {pools : Fin n → SlotPool Word64}
    (hinv : RingInv platform touched ring pools) {index : Fin n} {line : Line platform}
    (htouched : line.addr ∈ touched)
    (hothers : ∀ other, other ≠ index → (pools other).slotOf line.addr = none)
    {node : Node} (hnode :
      Represents platform index node ((pools index).assign line.addr).1) :
    RingInv platform touched (Function.update ring index node)
      (Function.update pools index ((pools index).assign line.addr).1) := by
  have hself : ∀ addr, addr ≠ line.addr →
      ((pools index).assign line.addr).1.slotOf addr =
        (pools index).slotOf addr := fun addr hne =>
    SlotPool.assign_other (pools index) hne
  constructor
  case represents =>
    intro other
    by_cases hother : other = index
    · subst hother
      simpa using hnode
    · simpa [hother] using hinv.represents other
  case pool =>
    intro other
    by_cases hother : other = index
    · subst hother
      simpa using (hinv.pool other).assign line.addr
    · simpa [hother] using hinv.pool other
  case next_le =>
    intro other
    by_cases hother : other = index
    · subst hother
      simpa using (hinv.pool other).assign_next_le (hinv.line other)
        (hinv.next_le other) htouched
    · simpa [hother] using hinv.next_le other
  case line =>
    intro other addr hslot
    by_cases haddr : addr = line.addr
    · exact haddr ▸ htouched
    · by_cases hother : other = index
      · subst hother
        rw [Function.update_self, hself addr haddr] at hslot
        exact hinv.line other addr hslot
      · rw [Function.update_of_ne hother] at hslot
        exact hinv.line other addr hslot
  case owner =>
    intro left right addr hleft hright
    by_cases haddr : addr = line.addr
    · -- the line just given belongs to this node alone
      subst haddr
      have honly : ∀ other,
          (Function.update pools index ((pools index).assign line.addr).1
            other).slotOf line.addr ≠ none → other = index := by
        intro other hslot
        by_contra hother
        rw [Function.update_of_ne hother] at hslot
        exact hslot (hothers other hother)
      rw [honly left hleft, honly right hright]
    · have hbefore : ∀ other,
          (Function.update pools index ((pools index).assign line.addr).1
            other).slotOf addr ≠ none → (pools other).slotOf addr ≠ none := by
        intro other hslot
        by_cases hother : other = index
        · subst hother
          rwa [Function.update_self, hself addr haddr] at hslot
        · rwa [Function.update_of_ne hother] at hslot
      exact hinv.owner left right addr (hbefore left hleft) (hbefore right hright)

theorem RingInv.release {ring : Ring n} {pools : Fin n → SlotPool Word64}
    (hinv : RingInv platform touched ring pools) {index : Fin n} {addr : Word64} {slot : ℕ}
    (hslot : (pools index).slotOf addr = some slot) {node : Node}
    (hnode : Represents platform index node ((pools index).release addr slot)) :
    RingInv platform touched (Function.update ring index node)
      (Function.update pools index ((pools index).release addr slot)) := by
  have hold : ∀ other key,
      (Function.update pools index ((pools index).release addr slot)
        other).slotOf key ≠ none → (pools other).slotOf key ≠ none := by
    intro other key hkey
    by_cases hother : other = index
    · subst hother
      by_cases hsame : key = addr
      · simp [hsame, hslot]
      · simpa [SlotPool.release, hsame] using hkey
    · simpa [hother] using hkey
  constructor
  case represents =>
    intro other
    by_cases hother : other = index
    · subst hother
      simpa using hnode
    · simpa [hother] using hinv.represents other
  case pool =>
    intro other
    by_cases hother : other = index
    · subst hother
      simpa using (hinv.pool other).release hslot
    · simpa [hother] using hinv.pool other
  case next_le =>
    intro other
    by_cases hother : other = index
    · subst hother
      simpa [SlotPool.release] using hinv.next_le other
    · simpa [hother] using hinv.next_le other
  case line =>
    intro other key hkey
    exact hinv.line other key (hold other key hkey)
  case owner =>
    intro left right key hleft hright
    exact hinv.owner left right key (hold left key hleft) (hold right key hright)

/-! ## Each critical section keeps it -/

/-- What a critical section leaves: the invariant, and the slot it found or gave
in the map of the owner. -/
def Keeps (platform : Platform n) (touched : Finset Word64) (addr : Word64)
    (result : Ring n × Option (Fin n × Word64)) : Prop :=
  ∃ pools, RingInv platform touched result.1 pools ∧
    ∀ owner realAddr, result.2 = some (owner, realAddr) →
      ∃ slot, (pools owner).slotOf addr = some slot ∧
        realAddr = slotAt platform owner slot

/-- `get_real_address` at the one node that has the line, or may get it. -/
theorem RingInv.give {ring : Ring n} {pools : Fin n → SlotPool Word64}
    (hinv : RingInv platform touched ring pools) {index : Fin n} {line : Line platform}
    (htouched : line.addr ∈ touched)
    (hothers : ∀ other, other ≠ index → (pools other).slotOf line.addr = none)
    {node : Node} (hmaps : Maps platform index node (pools index))
    (htable : ∀ other, (pools index).slotOf other ≠ none →
      other ∈ node.addressTable)
    (hkeys : ∀ other, other ∈ node.addressTable → other ≠ line.addr →
      (pools index).slotOf other ≠ none) :
    Keeps platform touched line.addr
      (Function.update ring index
        (getRealAddress platform.dataLength node line.addr).1,
        some (index, (getRealAddress platform.dataLength node line.addr).2)) := by
  obtain ⟨hnode, hslot⟩ := getRealAddress_represents hmaps htable hkeys
  refine ⟨_, hinv.assign htouched hothers hnode, ?_⟩
  intro owner realAddr hfound
  obtain ⟨rfl, rfl⟩ : index = owner ∧ _ = realAddr := by
    simpa using hfound
  refine ⟨_, ?_, hslot⟩
  rw [Function.update_self]
  exact SlotPool.assign_slot (pools index) line.addr

/-- A line found in a table: its node has it, and no other. -/
theorem RingInv.give_found {ring : Ring n} {pools : Fin n → SlotPool Word64}
    (hinv : RingInv platform touched ring pools) {index : Fin n} {line : Line platform}
    (htouched : line.addr ∈ touched) (hmem : line.addr ∈ (ring index).addressTable) :
    Keeps platform touched line.addr
      (Function.update ring index
        (getRealAddress platform.dataLength (ring index) line.addr).1,
        some (index,
          (getRealAddress platform.dataLength (ring index) line.addr).2)) := by
  have hrep := hinv.represents index
  have hslot := (hrep.addressTable line.addr).mp hmem
  refine hinv.give htouched ?_ hrep.toMaps (fun other => (hrep.addressTable other).mpr)
    (fun other hother _ => (hrep.addressTable other).mp hother)
  intro other hother
  by_contra hnone
  exact hother (hinv.owner other index line.addr hnone hslot)

/-- A line nobody has, put in the table first. -/
theorem RingInv.give_new {ring : Ring n} {pools : Fin n → SlotPool Word64}
    (hinv : RingInv platform touched ring pools) (index : Fin n) {line : Line platform}
    (htouched : line.addr ∈ touched)
    (hnone : ∀ other, other ≠ index →
      line.addr ∉ (ring other).addressTable) :
    Keeps platform touched line.addr
      (Function.update ring index
        (getRealAddress platform.dataLength { ring index with
          addressTable := insert line.addr (ring index).addressTable }
          line.addr).1,
        some (index,
          (getRealAddress platform.dataLength { ring index with
            addressTable := insert line.addr (ring index).addressTable }
            line.addr).2)) := by
  have hrep := hinv.represents index
  refine hinv.give htouched ?_ ⟨hrep.addressMap, hrep.emptyAddr, hrep.lastAddr⟩ ?_ ?_
  · intro other hother
    by_contra hslot
    exact hnone other hother (((hinv.represents other).addressTable _).mpr hslot)
  · intro other hslot
    exact Finset.mem_insert_of_mem ((hrep.addressTable other).mpr hslot)
  · intro other hother hne
    refine (hrep.addressTable other).mp ?_
    exact (Finset.mem_insert.mp hother).resolve_left hne

theorem RingInv.keeps {ring : Ring n} {pools : Fin n → SlotPool Word64}
    (hinv : RingInv platform touched ring pools) (addr : Word64) :
    Keeps platform touched addr (ring, none) :=
  ⟨pools, hinv, fun _ _ hfound => by simp at hfound⟩

/-- After the owner has given a line up nobody has it. -/
theorem RingInv.disown {ring : Ring n} {pools : Fin n → SlotPool Word64}
    (hinv : RingInv platform touched ring pools) {index : Fin n} {addr : Word64}
    {node : Node} (hdisown : disown (ring index) addr = some node) :
    (∃ pools', RingInv platform touched (Function.update ring index node) pools') ∧
      ∀ other, addr ∉ (Function.update ring index node other).addressTable := by
  obtain ⟨slot, hslot, hnode⟩ := disown_represents (hinv.represents index) hdisown
  refine ⟨⟨_, hinv.release hslot hnode⟩, ?_⟩
  intro other
  by_cases hother : other = index
  · subst hother
    rw [Function.update_self, hnode.addressTable]
    simp [SlotPool.release]
  · rw [Function.update_of_ne hother, (hinv.represents other).addressTable]
    intro hmem
    exact hother (hinv.owner other index addr hmem (by simp [hslot]))

theorem disownWrite_keeps {ring : Ring n} {pools : Fin n → SlotPool Word64}
    (hinv : RingInv platform touched ring pools) {this destNode : Fin n}
    {line : Line platform} (htouched : line.addr ∈ touched)
    {result : Ring n × Option (Fin n × Word64)}
    (hresult : disownWrite platform ring this line.addr destNode = some result) :
    Keeps platform touched line.addr result := by
  rw [disownWrite] at hresult
  split at hresult
  case isFalse => exact Option.some.inj hresult ▸ hinv.keeps line.addr
  case isTrue =>
    obtain ⟨node, hnode, hmoved⟩ := Option.bind_eq_some_iff.mp hresult
    obtain ⟨⟨pools', hinv'⟩, hnobody⟩ := hinv.disown hnode
    dsimp only at hmoved
    rw [if_neg (hnobody destNode)] at hmoved
    rw [← Option.some.inj hmoved]
    have hrep := hinv'.represents destNode
    refine hinv'.give htouched ?_ hrep.toMaps
      (fun other => (hrep.addressTable other).mpr)
      (fun other hother _ => (hrep.addressTable other).mp hother)
    intro other _
    by_contra hslot
    exact hnobody other (((hinv'.represents other).addressTable _).mpr hslot)

section Ring

variable [NeZero n]

theorem mem_ringFrom (this other : Fin n) : other ∈ ringFrom this :=
  List.mem_map.mpr ⟨other - this, List.mem_finRange _, by simp⟩

theorem head_ringFrom (this : Fin n) : (ringFrom this).head? = some this := by
  have hpos : 0 < n := Nat.pos_of_ne_zero (NeZero.ne n)
  rw [ringFrom, List.head?_map]
  have hhead : (List.finRange n).head? = some 0 := by
    rw [List.head?_eq_getElem?, List.getElem?_eq_getElem (by simpa using hpos)]
    simp
  rw [hhead]
  simp

theorem mem_findOwner {ring : Ring n} {this owner : Fin n} {addr : Word64}
    (hfind : findOwner ring this addr = some owner) :
    addr ∈ (ring owner).addressTable := by
  simpa using List.find?_some hfind

theorem not_mem_of_findOwner {ring : Ring n} {this : Fin n} {addr : Word64}
    (hfind : findOwner ring this addr = none) (other : Fin n) :
    addr ∉ (ring other).addressTable := by
  simpa using List.find?_eq_none.mp hfind other (mem_ringFrom this other)

theorem mem_findOther {ring : Ring n} {this owner : Fin n} {addr : Word64}
    (hfind : findOther ring this addr = some owner) :
    addr ∈ (ring owner).addressTable := by
  simpa using List.find?_some hfind

theorem not_mem_of_findOther {ring : Ring n} {this : Fin n} {addr : Word64}
    (hfind : findOther ring this addr = none) {other : Fin n} (hne : other ≠ this) :
    addr ∉ (ring other).addressTable := by
  have hmem : other ∈ (ringFrom this).tail := by
    obtain ⟨rest, hrest⟩ := List.head?_eq_some_iff.mp (head_ringFrom this)
    have hring := mem_ringFrom this other
    rw [hrest, List.mem_cons] at hring
    rw [hrest]
    exact hring.resolve_left hne
  simpa using List.find?_eq_none.mp hfind other hmem

theorem access_keeps {ring : Ring n} {pools : Fin n → SlotPool Word64}
    (hinv : RingInv platform touched ring pools) (this : Fin n) {line : Line platform}
    (htouched : line.addr ∈ touched) :
    Keeps platform touched line.addr
      ((access platform ring this line.addr).1,
        some (access platform ring this line.addr).2) := by
  rw [access]
  split
  case h_1 owner hfind => exact hinv.give_found htouched (mem_findOwner hfind)
  case h_2 hfind =>
    exact hinv.give_new this htouched fun other _ => not_mem_of_findOwner hfind other

theorem disownInvalidate_keeps {ring : Ring n} {pools : Fin n → SlotPool Word64}
    (hinv : RingInv platform touched ring pools) {this : Fin n} {line : Line platform}
    (htouched : line.addr ∈ touched) {ttAddress : Word64}
    {result : Ring n × Option (Fin n × Word64)}
    (hresult : disownInvalidate platform ring this line.addr ttAddress =
      some result) :
    Keeps platform touched line.addr result := by
  rw [disownInvalidate] at hresult
  split at hresult
  case isFalse => exact Option.some.inj hresult ▸ hinv.keeps line.addr
  case isTrue =>
    obtain ⟨moved, hmoved, hrest⟩ := Option.bind_eq_some_iff.mp hresult
    -- the other owner, if there was one, has given the line up
    obtain ⟨⟨pools', hinv'⟩, hothers⟩ :
        (∃ pools', RingInv platform touched moved pools') ∧
          ∀ other, other ≠ this → line.addr ∉ (moved other).addressTable := by
      split at hmoved
      case h_1 owner hfind =>
        obtain ⟨node, hnode, rfl⟩ := Option.map_eq_some_iff.mp hmoved
        obtain ⟨hpools, hnobody⟩ := hinv.disown hnode
        exact ⟨hpools, fun other _ => hnobody other⟩
      case h_2 hfind =>
        rw [← Option.some.inj hmoved]
        exact ⟨⟨pools, hinv⟩, fun other hne => not_mem_of_findOther hfind hne⟩
    split at hrest
    case isTrue hmem =>
      have hgive := hinv'.give_found htouched hmem
      split at hrest
      case h_1 node realAddr hreal =>
        rw [hreal] at hgive
        split at hrest
        case isFalse => simp at hrest
        case isTrue => exact Option.some.inj hrest ▸ hgive
    case isFalse =>
      rw [← Option.some.inj hrest]
      exact hinv'.give_new this htouched hothers

theorem writeOut_keeps {ring : Ring n} {pools : Fin n → SlotPool Word64}
    (hinv : RingInv platform touched ring pools) {this : Fin n} {line : Line platform}
    (htouched : line.addr ∈ touched) {result : Ring n × Option (Fin n × Word64)}
    (hresult : writeOut platform ring this line.addr = some result) :
    Keeps platform touched line.addr result := by
  obtain ⟨owner, hfind, rfl⟩ := Option.map_eq_some_iff.mp hresult
  exact hinv.give_found htouched (mem_findOwner hfind)

theorem answer_keeps {ring : Ring n} {pools : Fin n → SlotPool Word64}
    (hinv : RingInv platform touched ring pools) {op : Op platform}
    (htouched : op.line.addr ∈ touched) {result : Ring n × Option (Fin n × Word64)}
    (hresult : answer ring op = some result) :
    Keeps platform touched op.line.addr result := by
  cases op with
  | access this line =>
      rw [← Option.some.inj hresult]
      exact access_keeps hinv this htouched
  | disownWrite this line destNode => exact disownWrite_keeps hinv htouched hresult
  | disownInvalidate this line ttAddress =>
      exact disownInvalidate_keeps hinv htouched hresult
  | writeOut this line => exact writeOut_keeps hinv htouched hresult

/-! ## What the invariant says of the nodes -/

/-- Tables, maps, free lists and slots fit together. -/
structure Sound (platform : Platform n) (ring : Ring n) : Prop where
  oneOwner : ∀ left right addr, addr ∈ (ring left).addressTable →
    addr ∈ (ring right).addressTable → left = right
  mapped : ∀ index addr, addr ∈ (ring index).addressTable ↔
    (ring index).addressMap addr ≠ none
  injective : ∀ index addr addr' a, (ring index).addressMap addr = some a →
    (ring index).addressMap addr' = some a → addr = addr'
  notFree : ∀ index addr a, (ring index).addressMap addr = some a →
    a ∉ (ring index).emptyAddr
  /-- A slot lies a number of lines above the base of its node. -/
  boundary : ∀ index a,
    (a ∈ (ring index).emptyAddr ∨ ∃ addr, (ring index).addressMap addr = some a) →
    ∃ slot, a.toNat =
      (platform.dramBase index).toNat + slot * platform.dataLength

omit [NeZero n] in
/-- The pools' invariant in the terms of the nodes. -/
theorem RingInv.sound {ring : Ring n} {pools : Fin n → SlotPool Word64}
    (hinv : RingInv platform touched ring pools) (hroom : platform.Room touched) :
    Sound platform ring := by
  have hslot : ∀ index addr a, (ring index).addressMap addr = some a →
      ∃ slot, (pools index).slotOf addr = some slot ∧
        slot < touched.card ∧ slotAt platform index slot = a := by
    intro index addr a hmap
    rw [(hinv.represents index).addressMap, Option.map_eq_some_iff] at hmap
    obtain ⟨slot, hslot, hat⟩ := hmap
    have hbelow := (hinv.pool index).below addr slot hslot
    exact ⟨slot, hslot, hbelow.trans_le (hinv.next_le index), hat⟩
  have hfree : ∀ index a, a ∈ (ring index).emptyAddr →
      ∃ slot, slot ∈ (pools index).free ∧
        slot < touched.card ∧ slotAt platform index slot = a := by
    intro index a hmem
    rw [(hinv.represents index).emptyAddr, List.mem_map] at hmem
    obtain ⟨slot, hslot, hat⟩ := hmem
    have hbelow := (hinv.pool index).freeBelow slot hslot
    exact ⟨slot, hslot, hbelow.trans_le (hinv.next_le index), hat⟩
  constructor
  case oneOwner =>
    intro left right addr hleft hright
    exact hinv.owner left right addr
      (((hinv.represents left).addressTable addr).mp hleft)
      (((hinv.represents right).addressTable addr).mp hright)
  case mapped =>
    intro index addr
    rw [(hinv.represents index).addressTable, (hinv.represents index).addressMap]
    simp
  case injective =>
    intro index addr addr' a hmap hmap'
    obtain ⟨left, hleft, hlt, rfl⟩ := hslot index addr a hmap
    obtain ⟨right, hright, hlt', heq⟩ := hslot index addr' _ hmap'
    have hsame := slotAt_injective hroom index hlt' hlt heq
    exact (hinv.pool index).injective addr addr' left hleft (hsame ▸ hright)
  case notFree =>
    intro index addr a hmap hmem
    obtain ⟨used, hused, hlt, rfl⟩ := hslot index addr a hmap
    obtain ⟨free, hfree, hlt', heq⟩ := hfree index _ hmem
    have hsame := slotAt_injective hroom index hlt' hlt heq
    exact (hinv.pool index).unused addr used hused (hsame ▸ hfree)
  case boundary =>
    intro index a hplace
    rcases hplace with hmem | ⟨addr, hmap⟩
    · obtain ⟨slot, -, hlt, rfl⟩ := hfree index a hmem
      exact ⟨slot, toNat_slotAt hroom index hlt⟩
    · obtain ⟨slot, -, hlt, rfl⟩ := hslot index addr a hmap
      exact ⟨slot, toNat_slotAt hroom index hlt⟩

/-- Some pools represent the nodes in every state a run reaches. -/
theorem ringInv_of_exec {ops : List (Op platform)} {ring : Ring n}
    (htouched : ∀ op ∈ ops, op.line.addr ∈ touched)
    (hrun : Guarded.exec step (start platform) ops = some ring) :
    ∃ pools, RingInv platform touched ring pools := by
  have hkeeps : ∀ ring (op : Op platform) next,
      (∃ pools, RingInv platform touched ring pools) → op.line.addr ∈ touched →
        step ring op = some next → ∃ pools, RingInv platform touched next pools := by
    rintro ring op next ⟨pools, hinv⟩ hop hstep
    obtain ⟨result, hresult, rfl⟩ := Option.map_eq_some_iff.mp hstep
    obtain ⟨pools', hinv', -⟩ := answer_keeps hinv hop hresult
    exact ⟨pools', hinv'⟩
  exact Guarded.exec_invariant hkeeps ⟨_, start_ringInv platform touched⟩
    (Guarded.meets_of_forall _ htouched) hrun

/-- Whatever the nodes do with lines that they have room for, ownership stays sound,
and the slot a critical section finds or gives is in the map of its owner, above the
base of that node and apart from every other slot in use there. -/
theorem ownership_sound (platform : Platform n) (touched : Finset Word64)
    (hroom : platform.Room touched) (ops : List (Op platform))
    (htouched : ∀ op ∈ ops, op.line.addr ∈ touched) (ring : Ring n)
    (hrun : Guarded.exec step (start platform) ops = some ring) :
    Sound platform ring ∧
      ∀ (op : Op platform) next owner realAddr, op.line.addr ∈ touched →
        answer ring op = some (next, some (owner, realAddr)) →
          (next owner).addressMap op.line.addr = some realAddr ∧
            platform.dramBase owner ≤ realAddr ∧
            realAddr ∉ (next owner).emptyAddr ∧
            ∀ addr, addr ≠ op.line.addr →
              (next owner).addressMap addr ≠ some realAddr := by
  obtain ⟨pools, hinv⟩ := ringInv_of_exec htouched hrun
  refine ⟨hinv.sound hroom, ?_⟩
  intro op next owner realAddr hop hanswer
  obtain ⟨pools', hinv', hfound⟩ := answer_keeps hinv hop hanswer
  obtain ⟨slot, hslot, rfl⟩ := hfound owner realAddr rfl
  have hsound := hinv'.sound hroom
  have hmap : (next owner).addressMap op.line.addr =
      some (slotAt platform owner slot) := by
    rw [(hinv'.represents owner).addressMap, hslot, Option.map_some]
  refine ⟨hmap, ?_, hsound.notFree owner _ _ hmap, ?_⟩
  · have hlt := ((hinv'.pool owner).below _ _ hslot).trans_le (hinv'.next_le owner)
    rw [BitVec.le_def, toNat_slotAt hroom owner hlt]
    exact Nat.le_add_right _ _
  · intro addr hne hother
    exact hne (hsound.injective owner addr _ _ hother hmap)

/-! ## Room for all lines -/

/-- The line addresses in memory. -/
def lines (platform : Platform n) : Finset Word64 :=
  (Finset.range
      ((platform.iostartBase.toNat + platform.dataLength - 1) /
        platform.dataLength)).image
    fun line => BitVec.ofNat 64 (line * platform.dataLength)

omit [NeZero n] in
theorem Line.mem_lines (line : Line platform) : line.addr ∈ lines platform := by
  obtain ⟨index, hindex⟩ := line.aligned
  refine Finset.mem_image.mpr ⟨index, Finset.mem_range.mpr ?_, ?_⟩
  · have hbelow := line.below
    rw [hindex] at hbelow
    rw [Nat.lt_iff_add_one_le, Nat.le_div_iff_mul_le platform.dataLength_pos,
      Nat.succ_mul, Nat.mul_comm]
    omega
  · rw [Nat.mul_comm, ← hindex, BitVec.ofNat_toNat, BitVec.setWidth_eq]

omit [NeZero n] in
/-- A node whose base leaves as much below `2 ^ 64` as there is below i/o space has room
for every line. -/
theorem room_lines (hbase : ∀ node,
    (platform.dramBase node).toNat + platform.iostartBase.toNat ≤ 2 ^ 64) :
    platform.Room (lines platform) := by
  intro node
  have hpos := platform.dataLength_pos
  have hcard : (lines platform).card * platform.dataLength ≤
      platform.iostartBase.toNat + platform.dataLength - 1 := by
    calc (lines platform).card * platform.dataLength
        ≤ (Finset.range ((platform.iostartBase.toNat + platform.dataLength - 1) /
            platform.dataLength)).card * platform.dataLength :=
          Nat.mul_le_mul_right _ Finset.card_image_le
      _ = (platform.iostartBase.toNat + platform.dataLength - 1) /
            platform.dataLength * platform.dataLength := by rw [Finset.card_range]
      _ ≤ platform.iostartBase.toNat + platform.dataLength - 1 := Nat.div_mul_le_self _ _
  have hnode := hbase node
  omega

/-- Two nodes with migration: a line is touched by node 0, written by node 1,
another takes its slot, and node 0 evicts the first one back. -/
theorem ownership_sound_two :
    ∃ (platform : Platform 2) (ops : List (Op platform)) (ring : Ring 2),
      Guarded.exec step (start platform) ops = some ring ∧ ops.length = 4 ∧
        (ring 0).addressMap 0x40 = some 0x8 ∧ Sound platform ring := by
  let platform : Platform 2 :=
    { dataLength := 8
      iostartBase := 0xFFFFFFFFE0000000
      dramBase := ![0, 0x10000000]
      migrateMemory := fun _ => true
      dataLength_pos := by decide }
  let first : Line platform := ⟨0x40, by decide, by decide⟩
  let second : Line platform := ⟨0x80, by decide, by decide⟩
  let ops : List (Op platform) :=
    [.access 0 first, .disownWrite 0 first 1, .access 0 second,
      .disownInvalidate 0 first 0x10000000]
  have hroom : platform.Room (lines platform) := room_lines (by decide)
  refine ⟨platform, ops, _, rfl, rfl, by decide, ?_⟩
  exact (ownership_sound platform (lines platform) hroom ops
    (fun op _ => op.line.mem_lines) _ rfl).1

end Ring

end Prazor.Bus.Sri
