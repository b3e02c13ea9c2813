import Prazor.Caches.Ccache
import Prazor.Memory.LlscLocks

/-!
# Requests and what a cache does with them on its own

A request is a read or a write of some bytes inside one line, possibly with
byte enables, possibly linked.  Here are the parts of its service that no other
process can interrupt: the write into a line that is present, the answers to
snoops, and the access of the secondary storage itself.
-/

namespace Prazor.Caches

open Prazor.Bytes Prazor.Memory

/-- A transaction at the target socket of a cache. -/
structure Request where
  write : Bool
  addr : ℕ
  length : ℕ
  data : Buffer
  benable : Option Buffer
  blength : ℕ
  linked : Option ℕ

/-- What a request is answered with: the data buffer, and whether the response
is `TLM_OK_RESPONSE`. -/
structure Answer where
  data : Buffer
  ok : Bool

/-- The byte at an offset of the data is written. -/
def Request.enabled (req : Request) (i : ℕ) : Bool :=
  match req.benable with
  | none => true
  | some lanes => lanes i ≠ 0

/-! ## The secondary storage -/

/-- A flat memory with the locks of load-linked accesses. -/
structure Storage where
  memory : Memory
  locks : LlscLocks

/-- A byte enable pointer of zero length enables every byte, a shorter one is
repeated. -/
def Request.storageEnabled (req : Request) (i : ℕ) : Bool :=
  match req.benable with
  | none => true
  | some lanes => req.blength = 0 ∨ lanes (i % req.blength) ≠ 0

/-- The memory after the enabled bytes of a write. -/
def Request.storeInto (req : Request) (memory : Memory) : Memory := fun x =>
  if req.addr ≤ x ∧ x < req.addr + req.length ∧ req.storageEnabled (x - req.addr) then
    req.data (x - req.addr)
  else memory x

/-- The data buffer after a read of the memory. -/
def Request.loadFrom (req : Request) (memory : Memory) : Buffer :=
  memcpy req.length (fun i => memory (req.addr + i)) req.data

/-- One access of the storage.  A store-conditional whose lock is gone is
answered with an error and writes nothing. -/
def Storage.access (storage : Storage) (req : Request) : Storage × Answer :=
  if req.write then
    match req.linked with
    | none =>
        ({ storage with memory := req.storeInto storage.memory },
          { data := req.data, ok := true })
    | some id =>
        let locked := storage.locks.storeconditionalFail id (BitVec.ofNat 64 req.addr)
        if locked.2 then
          ({ storage with locks := locked.1 }, { data := req.data, ok := false })
        else
          ({ memory := req.storeInto storage.memory, locks := locked.1 },
            { data := req.data, ok := true })
  else
    match req.linked with
    | none => (storage, { data := req.loadFrom storage.memory, ok := true })
    | some id =>
        let locked := storage.locks.loadlockedFail id (BitVec.ofNat 32 req.addr)
        ({ storage with locks := locked.1 },
          { data := req.loadFrom storage.memory, ok := !locked.2 })

/-! ## Inside one cache -/

/-- The answer of a cache to a snoop: the state the line was in, and its bytes
when it was there. -/
structure Reply where
  state : LineState
  data : Buffer

namespace Ccache

variable (g : Geometry)

/-- The bytes of a line after `memcpy(cdata, data, dlength)` at an offset. -/
def mergeAt (offset length : ℕ) (data line : Buffer) : Buffer := fun k =>
  if offset ≤ k ∧ k < offset + length then data (k - offset) else line k

/-- The data of a request after `warm_write` has replaced its disabled bytes by
those of the line. -/
def fillDisabled (cache : Ccache) (i : ℕ) (req : Request) : Request :=
  { req with data := fun k =>
      if k < req.blength ∧ !req.enabled k then
        (cache.mWays i).mData (g.index req.addr) (g.offset req.addr + k)
      else req.data k }

/-- `warm_write`, once the disabled bytes are filled in.  `some none` when the
line cannot be locked, `none` when the release fails. -/
def warmWrite (cache : Ccache) (i : ℕ) (req : Request) (oldts : Word64)
    (update : Bool) : Option (Option Ccache) :=
  let index := g.index req.addr
  let way := cache.mWays i
  let exchange := acquirets (way.mStatus index) oldts
  if exchange.success then
    let newts :=
      if update then incts exchange.oldts .uniqueDirty else inctsSame exchange.oldts
    let release := releasets exchange.status exchange.oldts newts
    if release.success then
      some (some (cache.setWay i { way with
        mStatus := Function.update way.mStatus index release.status
        mData := Function.update way.mData index
          (mergeAt (g.offset req.addr) req.length req.data (way.mData index)) }))
    else none
  else some none

/-- The branch of `peq_cb` that hands the line over: to be shared with the
requester, or given up.  `none` when the line is locked: the loop then never
ends, or the assertion for `Evict` fails. -/
def snoopLine (cache : Ccache) (lineAddr : ℕ) (shared : Bool) :
    Option (Ccache × Reply) :=
  let index := g.index lineAddr
  match cache.lookup g index (g.tag lineAddr) with
  | none => some (cache, { state := .invalid, data := fun _ => 0 })
  | some i =>
      let way := cache.mWays i
      let exchange := acquirets (way.mStatus index) (way.mStatus index)
      if exchange.success then
        let newts := incts exchange.oldts (if shared then .sharedClean else .invalid)
        let release := releasets exchange.status exchange.oldts newts
        if release.success then
          some (cache.setStatus i index release.status,
            { state := lineState (way.mStatus index), data := way.mData index })
        else none
      else none

/-- The branch of `peq_cb` for `MakeInvalid`: only a shared line is given up. -/
def snoopMakeInvalid (cache : Ccache) (lineAddr : ℕ) : Option (Ccache × Reply) :=
  let index := g.index lineAddr
  match cache.lookup g index (g.tag lineAddr) with
  | none => some (cache, { state := .invalid, data := fun _ => 0 })
  | some i =>
      let way := cache.mWays i
      let reply := { state := lineState (way.mStatus index), data := fun _ => 0 }
      if lineState (way.mStatus index) ≠ .sharedClean then some (cache, reply)
      else
        let exchange := updatets (way.mStatus index) (way.mStatus index)
          (incts (way.mStatus index) .invalid)
        if exchange.success then some (cache.setStatus i index exchange.status, reply)
        else none

/-- A held line is released as invalid, the end of the local part of
`locked_op`; `none` when the release fails. -/
def releaseInvalid (cache : Ccache) (i index : ℕ) (ts : Word64) : Option Ccache :=
  let release := releasets ((cache.mWays i).mStatus index) ts (incts ts .invalid)
  if release.success then some (cache.setStatus i index release.status) else none

end Ccache

end Prazor.Caches
