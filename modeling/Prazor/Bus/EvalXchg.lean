import Prazor.Bus.AccessWidths
import Prazor.Memory.KnownPages

/-!
# Atomic exchanges

`eval_xchg` reads a doubleword load-linked and stores its value conditionally,
again and again until the store is not refused.  Any number of cores run it on
one memory, each between transactions of its own of every other kind, and the
transactions of different cores come in any order.

An exchange keeps its promise under three conditions.  It is not of 16 bits,
for which the mask of a 32-bit store is sent, and a byte is in the lane that
the answer is not shifted from.  The page it reads is there, or zero when it is
made.  And no plain write reaches the place while its lock is held, since the
locks do not see plain writes.
-/

namespace Prazor.Bus.Xchg

open Prazor.Tlm Prazor.Bytes Prazor.Memory

/-- The memory, and the end from which all the cores number their bytes. -/
structure Platform where
  config : MemoryConfig
  endianFlip : ℕ
  flip : endianFlip = 0 ∨ endianFlip = 7

/-- The arguments of `eval_xchg`, at a naturally aligned address. -/
structure Call where
  memaddr : Word64
  wdata : Word64
  width : Width
  aligned : width.bytes ∣ memaddr.toNat

/-- A transaction of a core that reached the memory. -/
structure Transfer where
  core : ℕ
  found : Pages
  trans : Payload
  response : Response
  left : Pages

/-- Where a core is in `eval_xchg`: before its load-linked, before its
store-conditional, or back with `ok2` in its caller.  The log has the transfers
of all cores since the call began. -/
inductive Phase where
  | idle
  | loading (call : Call) (rdata : Word64) (log : List Transfer)
  | storing (call : Call) (rdata : Word64) (log : List Transfer)
  | returned (call : Call) (ok2 : ℕ) (rdata : Word64) (log : List Transfer)

structure System where
  mem : GenericTlmMem
  cores : ℕ → Phase

/-! ## The loop -/

/-- The linked read of `mem_read`. -/
def loadLinked (procID : ℕ) (memaddr rdata : Word64) : Payload :=
  { memRead memaddr 3 rdata with llsc := some procID }

/-- What `cpu_mem_store_conditional` makes of the response. -/
def conditionalResult : Response → ℕ
  | .ok => 1
  | .genericError => 2
  | _ => 0

/-- `rdata` when the loop has ended: only the upper word is shifted down. -/
def adjusted (endianFlip : ℕ) (call : Call) (rdata : Word64) : Word64 :=
  if call.width = .w32 ∧ (call.memaddr ^^^ BitVec.ofNat 64 endianFlip) &&& 4 ≠ 0 then
    rdata >>> 32
  else rdata

/-- The transaction with which `eval_xchg` goes on. -/
def sends (endianFlip procID : ℕ) : Phase → Option Payload
  | .loading call rdata _ => some (loadLinked procID (call.memaddr &&& ~~~7) rdata)
  | .storing call _ _ =>
      some (storeConditional endianFlip procID call.memaddr call.wdata call.width)
  | _ => none

/-- `eval_xchg` from the answer to a transaction on. -/
def receives (endianFlip : ℕ) (answer : Payload) : Phase → Phase
  | .loading call _ log =>
      let rdata := load64 answer.data
      if answer.response ≠ .ok then .returned call 0 rdata log
      else .storing call rdata log
  | .storing call rdata log =>
      let ok2 := conditionalResult answer.response
      if ok2 ≠ 0 then .returned call ok2 (adjusted endianFlip call rdata) log
      else .loading call rdata log
  | phase => phase

/-- A call is in progress. -/
def Phase.busy : Phase → Bool
  | .loading _ _ _ => true
  | .storing _ _ _ => true
  | _ => false

/-- A transfer is entered in the log of a call in progress. -/
def Phase.note (transfer : Transfer) : Phase → Phase
  | .loading call rdata log => .loading call rdata (log ++ [transfer])
  | .storing call rdata log => .storing call rdata (log ++ [transfer])
  | phase => phase

/-! ## The cores and their memory -/

/-- A core begins an exchange; the next transaction of its exchange is served,
or answered with an error on its way; or it sends another transaction. -/
inductive Move where
  | call (core : ℕ) (call : Call) (rdata : Word64)
  | exchange (core : ℕ)
  | fault (core : ℕ) (response : Response)
  | transact (core : ℕ) (trans : Payload)

/-- The transfer of a transaction that was answered. -/
def transferOf (s : System) (core : ℕ) (trans : Payload) (served : GenericTlmMem × Payload) :
    Transfer :=
  { core := core
    found := s.mem.memoryHashMap
    trans := trans
    response := served.2.response
    left := served.1.memoryHashMap }

/-- The system after a transaction. -/
def System.after (s : System) (core : ℕ) (trans : Payload)
    (served : GenericTlmMem × Payload) : System :=
  { mem := served.1
    cores := fun c => (s.cores c).note (transferOf s core trans served) }

def System.setPhase (s : System) (core : ℕ) (phase : Phase) : System :=
  { s with cores := Function.update s.cores core phase }

/-- A core sends transactions under its own identity only. -/
def Own (core : ℕ) (trans : Payload) : Prop := trans.llsc = none ∨ trans.llsc = some core

instance decidableOwn (core : ℕ) (trans : Payload) : Decidable (Own core trans) :=
  inferInstanceAs (Decidable (_ ∨ _))

/-- One move; `none` when the core cannot make it, or an assertion of the memory
fails. -/
def step (platform : Platform) (s : System) : Move → Option System
  | .call core call rdata =>
      if (s.cores core).busy then none else some (s.setPhase core (.loading call rdata []))
  | .exchange core =>
      (sends platform.endianFlip core (s.cores core)).bind fun trans =>
        (access platform.config s.mem trans).map fun served =>
          let next := s.after core trans served
          next.setPhase core (receives platform.endianFlip served.2 (next.cores core))
  | .fault core response =>
      if response = .ok then none
      else (sends platform.endianFlip core (s.cores core)).map fun trans =>
        s.setPhase core
          (receives platform.endianFlip { trans with response := response } (s.cores core))
  | .transact core payload =>
      if (s.cores core).busy ∨ ¬Own core payload then none
      else (access platform.config s.mem payload).map fun served => s.after core payload served

def System.powerOn (pages : Pages) : System :=
  { mem := { memoryHashMap := pages, llscLocks := .fresh }, cores := fun _ => .idle }

/-! ## What an exchange promises -/

/-- The memory as the cores address it. -/
def lanes (config : MemoryConfig) (pages : Pages) : LaneMemory := fun y =>
  pages.shown (y - config.memBase)

/-- The value at an aligned place, as wide as an access. -/
def contents (endianFlip : ℕ) (mem : LaneMemory) (width : Width) (addr : Word64) :
    BitVec width.bits :=
  (load64 fun i => mem (busAddress endianFlip width addr + BitVec.ofNat 64 i)).setWidth _

/-- The transfer is a write that took effect. -/
def Transfer.Stores (transfer : Transfer) : Prop :=
  transfer.trans.command = .write ∧ transfer.response = .ok

/-- The transaction puts a byte in the place of the call. -/
def Covers (platform : Platform) (call : Call) (trans : Payload) : Prop :=
  ∃ x, Addressed call.width call.memaddr x ∧
    storesByte platform.config trans
      ((x ^^^ BitVec.ofNat 64 platform.endianFlip) - platform.config.memBase) = true

/-- The transfer is a write that took effect in the place of the call. -/
def Transfer.Reaches (platform : Platform) (call : Call) (transfer : Transfer) : Prop :=
  transfer.Stores ∧ Covers platform call transfer.trans

/-- The core has stored nothing in these transfers. -/
def Quiet (core : ℕ) (log : List Transfer) : Prop :=
  ∀ transfer ∈ log, transfer.core = core → ¬transfer.Stores

/-- The log of an exchange that stored: its last load-linked, what the other cores
did after it, and at the end its store. -/
structure Exchanged (platform : Platform) (core : ℕ) (call : Call) (rdata : Word64)
    (earlier : List Transfer) (link : Transfer) (between : List Transfer)
    (store : Transfer) : Prop where
  linked : link.core = core ∧ link.trans.command = .read ∧ link.trans.llsc = some core
  others : ∀ transfer ∈ between, transfer.core ≠ core
  stores : store.core = core ∧ store.Stores
  /-- The value is in the place of the call, and no other byte has changed. -/
  stored : Stored platform.endianFlip (lanes platform.config store.found)
    (lanes platform.config store.left) call.width call.memaddr (call.wdata.setWidth _)
  once : Quiet core (earlier ++ link :: between)
  returns : rdata.setWidth call.width.bits =
    contents platform.endianFlip (lanes platform.config store.found) call.width call.memaddr
  undisturbed : ∀ transfer ∈ between, ¬transfer.Reaches platform call

/-- What a call has done that returned. -/
def Atomic (platform : Platform) (core : ℕ) (call : Call) (ok2 : ℕ) (rdata : Word64)
    (log : List Transfer) : Prop :=
  if ok2 = 1 then
    ∃ earlier link between store, log = earlier ++ link :: (between ++ [store]) ∧
      Exchanged platform core call rdata earlier link between store
  else Quiet core log

/-- The offset of the doubleword of a call. -/
def Call.offset (platform : Platform) (call : Call) : Word64 :=
  (call.memaddr &&& ~~~7) - platform.config.memBase

/-- The lock for the call is held. -/
def Reserved (platform : Platform) (mem : GenericTlmMem) (core : ℕ) (call : Call) : Prop :=
  mem.llscLocks.llsc1.a = call.offset platform ∧ mem.llscLocks.llsc1.id = core

/-- The widths and lanes for which the mask and the answer are right. -/
def Call.Fits (platform : Platform) (call : Call) : Prop :=
  call.width ≠ .w16 ∧
    (call.width = .w8 → firstLane platform.endianFlip .w8 call.memaddr = 0)

/-- The moves under which exchanges are atomic. -/
def Careful (platform : Platform) (s : System) : Move → Prop
  | .call _ call _ => call.Fits platform
  | .exchange core => ∀ call rdata log, s.cores core = .loading call rdata log →
      KnownPage platform.config.newPage s.mem.memoryHashMap (pageBase (call.offset platform))
  | .fault _ _ => True
  | .transact _ payload => payload.command = .write → payload.llsc = none →
      accepted platform.config payload →
        ∀ core call rdata log, s.cores core = .storing call rdata log →
          Reserved platform s.mem core call → ¬Covers platform call payload

end Prazor.Bus.Xchg
