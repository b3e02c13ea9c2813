import Prazor.Core.Guarded
import Prazor.Caches.Operations

/-!
# Caches under a snoop control unit

Any number of caches share one snoop control unit and one secondary storage.
Threads send requests to the caches.  A thread is suspended while the snoop
control unit waits for the answers of the other caches, and while an access of
the secondary storage is outstanding; between two suspensions it runs alone, as
the processes of the simulation do.  Each action below is one such run, one
answer to a snoop, or one access served by the storage.

A step is undefined (`none`) where an assertion of the source fails, where a
loop of the source never leaves its process (a line that stays locked), and
where the source writes past an array: the snoop control unit has one row less
than there are snooped caches, but takes the row of a cache by its own number.
-/

namespace Prazor.Caches

open Prazor.Bytes

/-- The caches attached to one snoop control unit: which of them are snooped,
and their geometries, which agree on the line size. -/
structure Cluster where
  boffsetb : ℕ
  snoopedTargets : List Bool
  geometry : ℕ → Geometry
  same_line : ∀ b, (geometry b).boffsetb = boffsetb

namespace Cluster

def linesize (cl : Cluster) : ℕ := 2 ^ cl.boffsetb

/-- The cache behind a target port is snooped. -/
def snooped (cl : Cluster) (b : ℕ) : Bool := cl.snoopedTargets.getD b false

/-- The snooped caches, in the order of the snoop socket. -/
def ports (cl : Cluster) : List ℕ :=
  (List.range cl.snoopedTargets.length).filter cl.snooped

/-- The number of the line an address is in. -/
def line (cl : Cluster) (addr : ℕ) : ℕ := addr / cl.linesize

/-- The line address a cache sends for an address. -/
def lineAddr (cl : Cluster) (addr : ℕ) : ℕ := addr % 2 ^ 32 / cl.linesize * cl.linesize

end Cluster

/-- `UNCACHED_ADDRESS_SPACE64`. -/
def uncached (addr : ℕ) : Bool := 0xE0000000 ≤ addr

/-- The snooping transactions. -/
inductive Transaction where
  | readShared
  | readUnique
  | makeUnique
  | makeInvalid
  | evict
  deriving DecidableEq

/-- The transaction brings a line to the requester. -/
def Transaction.isFetch : Transaction → Bool
  | .readShared | .readUnique | .makeUnique => true
  | .makeInvalid | .evict => false

/-- Where a thread is suspended.

* `snooping`: in the snoop control unit, waiting for the answers of `pending`;
  `upgrade` is the way and the status word a `MakeInvalid` was sent for.
* `spilling`: dirty bytes of a snooped line are written to the storage.
* `fetching`: the line is read from the storage.
* `arriving`: no suspension; the thread runs, with a line to insert.
* `evicting`: a dirty victim is written back while its column is locked.
* `flushing`: `locked_op` writes back its own dirty line, which is locked.
* `forwarding`: the request itself is at the storage. -/
inductive Phase where
  | idle
  | snooping (req : Request) (ttype : Transaction) (upgrade : ℕ × Word64)
      (pending : List ℕ) (notified : Bool) (replies : ℕ → Reply)
  | spilling (req : Request) (ttype : Transaction) (data : Buffer) (stored : Bool)
  | fetching (req : Request) (ttype : Transaction) (got : Option Buffer)
  | arriving (req : Request) (cline : Buffer) (news : LineState)
  | evicting (req : Request) (cline : Buffer) (news : LineState) (i : ℕ)
      (ts : Word64) (write : WriteBack) (stored : Bool)
  | flushing (req : Request) (i : ℕ) (ts : Word64) (write : WriteBack) (stored : Bool)
  | forwarding (req : Request) (answer : Option Answer)
  | done (req : Request) (answer : Answer)

/-- A thread and the cache its requests go to. -/
structure Thread where
  cache : ℕ
  phase : Phase

structure System where
  caches : ℕ → Ccache
  storage : Storage
  servedRequests : ℕ → ℕ
  waitEvents : ℕ → Bool
  threads : ℕ → Thread

namespace System

def setCache (sys : System) (b : ℕ) (cache : Ccache) : System :=
  { sys with caches := Function.update sys.caches b cache }

def setPhase (sys : System) (t b : ℕ) (phase : Phase) : System :=
  { sys with threads := Function.update sys.threads t { cache := b, phase := phase } }

def setMemory (sys : System) (memory : Memory) : System :=
  { sys with storage := { sys.storage with memory := memory } }

/-- The cluster before the first request. -/
def powerOn (memory : Memory) : System :=
  { caches := fun _ => .fresh
    storage := { memory := memory, locks := .fresh }
    servedRequests := fun _ => 0
    waitEvents := fun _ => false
    threads := fun _ => { cache := 0, phase := .idle } }

variable (cl : Cluster)

/-- The beginning of the snooping part of `scu::b_transport`: the snoops are
sent.  `none` when the port has unserved snoops (the assertion) or a waiting
thread, whose event would be overwritten. -/
def startSnoop (sys : System) (t b : ℕ) (req : Request) (ttype : Transaction)
    (upgrade : ℕ × Word64) : Option System :=
  if sys.servedRequests b ≠ 0 ∨ sys.waitEvents b then none
  else
    let others := cl.ports.filter (· ≠ b)
    some ({ sys with
      servedRequests := Function.update sys.servedRequests b others.length
      waitEvents := Function.update sys.waitEvents b true }.setPhase t b
        (.snooping req ttype upgrade others false
          fun _ => { state := .invalid, data := fun _ => 0 }))

/-- A miss: the line is asked for.  A cache that is not snooped has no state
extension, and its transaction goes straight to the storage. -/
def startFetch (sys : System) (t b : ℕ) (req : Request) (ttype : Transaction) :
    Option System :=
  if cl.snooped b then sys.startSnoop cl t b req ttype (0, 0)
  else some (sys.setPhase t b (.fetching req ttype none))

/-- `locked_op` after its local part: the other caches are evicted, then the
request is forwarded. -/
def startEvict (sys : System) (t b : ℕ) (req : Request) : Option System :=
  if cl.snooped b then sys.startSnoop cl t b req .evict (0, 0)
  else some (sys.setPhase t b (.forwarding req none))

/-- `locked_op`. -/
def startLocked (sys : System) (t b : ℕ) (req : Request) : Option System :=
  let g := cl.geometry b
  let cache := sys.caches b
  let index := g.index req.addr
  match cache.lookup g index (g.tag req.addr) with
  | none => sys.startEvict cl t b req
  | some i =>
      let way := cache.mWays i
      let exchange := acquirets (way.mStatus index) (way.mStatus index)
      if exchange.success then
        let held := cache.setStatus i index exchange.status
        if lineState (way.mStatus index) = .uniqueDirty then
          some ((sys.setCache b held).setPhase t b (.flushing req i exchange.oldts
            { addr := g.lineAddr req.addr, data := way.mData index } false))
        else
          (held.releaseInvalid i index exchange.oldts).bind fun released =>
            (sys.setCache b released).startEvict cl t b req
      else none

/-- `read` up to its first suspension.  A hit that cannot be locked is retried
for ever. -/
def startRead (sys : System) (t b : ℕ) (req : Request) : Option System :=
  let g := cl.geometry b
  let cache := sys.caches b
  let index := g.index req.addr
  match cache.lookup g index (g.tag req.addr) with
  | none => sys.startFetch cl t b req .readShared
  | some i =>
      let way := cache.mWays i
      (cache.touch i index (way.mStatus index)).join.map fun touched =>
        (sys.setCache b touched).setPhase t b (.done req
          { data := memcpy req.length
              (fun k => way.mData index (g.offset req.addr + k)) req.data
            ok := true })

/-- `write` up to its first suspension. -/
def startWrite (sys : System) (t b : ℕ) (req : Request) : Option System :=
  let g := cl.geometry b
  let cache := sys.caches b
  let index := g.index req.addr
  if req.benable.isSome ∧ req.length ≠ req.blength then none
  else
    match cache.lookup g index (g.tag req.addr) with
    | none =>
        sys.startFetch cl t b req
          (if req.length = g.linesize then .makeUnique else .readUnique)
    | some i =>
        let ts := (cache.mWays i).mStatus index
        let filled := cache.fillDisabled g i req
        match lineState ts with
        | .uniqueDirty =>
            (cache.warmWrite g i filled ts false).join.map fun written =>
              (sys.setCache b written).setPhase t b
                (.done filled { data := filled.data, ok := true })
        | .uniqueClean =>
            (cache.warmWrite g i filled ts true).join.map fun written =>
              (sys.setCache b written).setPhase t b
                (.done filled { data := filled.data, ok := true })
        | .sharedClean =>
            if cl.snooped b then sys.startSnoop cl t b req .makeInvalid (i, ts)
            else none
        | _ => none

/-- `ccache::b_transport` up to its first suspension. -/
def start (sys : System) (t b : ℕ) (req : Request) : Option System :=
  if req.linked.isSome then sys.startLocked cl t b req
  else if uncached req.addr then some (sys.setPhase t b (.forwarding req none))
  else if req.write then sys.startWrite cl t b req
  else sys.startRead cl t b req

/-- `cold_write` has returned.  `write` then returns a variable that was never
set, so the loop in `b_transport` ends (`returned`) or starts again. -/
def coldWritten (sys : System) (t b : ℕ) (req : Request) (returned : Bool) :
    Option System :=
  if returned then
    some (sys.setPhase t b (.done req { data := req.data, ok := true }))
  else sys.start cl t b req

/-- The end of `insert`, and of the `read` or `write` that has called it. -/
def finishFetch (sys : System) (t b : ℕ) (req : Request) (cline : Buffer)
    (news : LineState) (i : ℕ) (ts : Word64) (returned : Bool) : Option System :=
  let g := cl.geometry b
  let index := g.index req.addr
  ((sys.caches b).finishInsert g i index (g.tag req.addr) cline news ts).bind
    fun inserted =>
      let sys := (sys.setCache b inserted.1).setPhase t b .idle
      if req.write then sys.coldWritten cl t b req returned
      else
        (inserted.1.touch i index inserted.2).join.map fun touched =>
          (sys.setCache b touched).setPhase t b (.done req
            { data := memcpy req.length (fun k => cline (g.offset req.addr + k)) req.data
              ok := true })

/-- The line a request inserts when these bytes have arrived: a write puts its
enabled bytes over them. -/
def arrivedLine (g : Geometry) (req : Request) (data : Buffer) : Buffer :=
  if req.write then fun k =>
    if g.offset req.addr ≤ k ∧ k < g.offset req.addr + req.length ∧
        req.enabled (k - g.offset req.addr) then
      req.data (k - g.offset req.addr)
    else data k
  else data

/-- The state the line is inserted in: a write makes it dirty. -/
def arrivedState (req : Request) (state : LineState) : LineState :=
  if req.write then .uniqueDirty else state

/-- The line has arrived, in state `state`, and is inserted.  When the column is
locked the request starts again, unless a write happens to return true. -/
def fetched (sys : System) (t b : ℕ) (req : Request) (data : Buffer)
    (state : LineState) (returned : Bool) : Option System :=
  let g := cl.geometry b
  let index := g.index req.addr
  let cline := arrivedLine g req data
  let news := arrivedState req state
  let begun := (sys.caches b).beginInsert g index
  let sys := (sys.setPhase t b (.arriving req cline news)).setCache b begun.1
  match begun.2 with
  | none =>
      let sys := sys.setPhase t b .idle
      if req.write then sys.coldWritten cl t b req returned
      else sys.start cl t b req
  | some (i, ts) =>
      match begun.1.victim g i index (g.tag req.addr) (lineState ts) with
      | some write => some (sys.setPhase t b (.evicting req cline news i ts write false))
      | none => sys.finishFetch cl t b req cline news i ts returned

/-- The state the snoop control unit gives a line that was found in another
cache, or nowhere. -/
def foundState : Transaction → LineState
  | .readShared => .sharedClean
  | _ => .uniqueDirty

def missedState : Transaction → LineState
  | .readShared => .uniqueClean
  | _ => .uniqueDirty

/-- `write` after `MakeInvalid`: the line is written if its status word is
still the one that was seen, else the request starts again. -/
def upgraded (sys : System) (t b : ℕ) (req : Request) (upgrade : ℕ × Word64) :
    Option System :=
  let g := cl.geometry b
  let cache := sys.caches b
  let filled := cache.fillDisabled g upgrade.1 req
  match cache.warmWrite g upgrade.1 filled upgrade.2 true with
  | none => none
  | some none => sys.start cl t b filled
  | some (some written) =>
      some ((sys.setCache b written).setPhase t b
        (.done filled { data := filled.data, ok := true }))

/-- The first answer, in the order of the snoop socket, that has the line. -/
def foundReply (b : ℕ) (replies : ℕ → Reply) : Option ℕ :=
  (cl.ports.filter (· ≠ b)).find? fun j => (replies j).state ≠ .invalid

/-- `scu::b_transport` after its wait: the first answer that has the line
decides.  `garbage` is what a cache's uninitialised line buffer holds. -/
def snooped (sys : System) (t b : ℕ) (req : Request) (ttype : Transaction)
    (upgrade : ℕ × Word64) (replies : ℕ → Reply) (garbage : Buffer)
    (returned : Bool) : Option System :=
  let found := foundReply cl b replies
  let sstate := (found.map fun j => (replies j).state).getD .invalid
  let data := (found.map fun j => (replies j).data).getD garbage
  match ttype with
  | .makeInvalid => sys.upgraded cl t b req upgrade
  | .evict =>
      match sstate with
      | .uniqueDirty => some (sys.setPhase t b (.spilling req ttype data false))
      | _ => some (sys.setPhase t b (.forwarding req none))
  | .readShared | .readUnique | .makeUnique =>
      match sstate with
      | .invalid =>
          if ttype = .makeUnique then
            sys.fetched cl t b req garbage .uniqueDirty returned
          else some (sys.setPhase t b (.fetching req ttype none))
      | .uniqueClean | .sharedClean =>
          sys.fetched cl t b req data (foundState ttype) returned
      | .uniqueDirty => some (sys.setPhase t b (.spilling req ttype data false))
      | .sharedDirty => none

/-- What can happen next. -/
inductive Action where
  | start (t b : ℕ) (req : Request)
  | reply (t j : ℕ)
  | wake (t : ℕ) (garbage : Buffer) (returned : Bool)
  | serve (t : ℕ)
  | resume (t : ℕ) (returned : Bool)

/-- Cache `j` answers the snoop of a thread.  A line found in the last port is
copied to a row that does not exist, unless the requester is that port. -/
def answerSnoop (sys : System) (j : ℕ) (ttype : Transaction) (lineAddr : ℕ) :
    Option (Ccache × Reply) :=
  let g := cl.geometry j
  let cache := sys.caches j
  if ttype = .makeInvalid then cache.snoopMakeInvalid g lineAddr
  else if cl.ports.getLast? = some j ∧
      (cache.lookup g (g.index lineAddr) (g.tag lineAddr)).isSome then none
  else cache.snoopLine g lineAddr (ttype = .readShared)

/-- One step of the cluster. -/
def step (sys : System) : Action → Option System
  | .start t b req =>
      match (sys.threads t).phase with
      | .idle | .done _ _ => (sys.setPhase t b .idle).start cl t b req
      | _ => none
  | .reply t j =>
      match (sys.threads t).phase with
      | .snooping req ttype upgrade pending _ replies =>
          let b := (sys.threads t).cache
          if j ∈ pending then
            (sys.answerSnoop cl j ttype (cl.lineAddr req.addr)).map fun answer =>
              let left := sys.servedRequests b - 1
              ({ sys with
                caches := Function.update sys.caches j answer.1
                servedRequests := Function.update sys.servedRequests b left }).setPhase t b
                  (.snooping req ttype upgrade (pending.erase j) (left = 0)
                    (Function.update replies j answer.2))
          else none
      | _ => none
  | .wake t garbage returned =>
      match (sys.threads t).phase with
      | .snooping req ttype upgrade _ true replies =>
          let b := (sys.threads t).cache
          ({ sys with
            waitEvents := Function.update sys.waitEvents b false }.setPhase t b .idle).snooped
              cl t b req ttype upgrade replies garbage returned
      | _ => none
  | .serve t =>
      let b := (sys.threads t).cache
      match (sys.threads t).phase with
      | .spilling req ttype data false =>
          some ((sys.setMemory (WriteBack.apply (cl.geometry b) sys.storage.memory
            { addr := cl.lineAddr req.addr, data := data })).setPhase t b
              (.spilling req ttype data true))
      | .fetching req ttype none =>
          some (sys.setPhase t b (.fetching req ttype
            (some fun k => sys.storage.memory (cl.lineAddr req.addr + k))))
      | .evicting req cline news i ts write false =>
          some ((sys.setMemory (WriteBack.apply (cl.geometry b) sys.storage.memory
            write)).setPhase t b (.evicting req cline news i ts write true))
      | .flushing req i ts write false =>
          some ((sys.setMemory (WriteBack.apply (cl.geometry b) sys.storage.memory
            write)).setPhase t b (.flushing req i ts write true))
      | .forwarding req none =>
          let served := sys.storage.access req
          some ({ sys with storage := served.1 }.setPhase t b
            (.forwarding req (some served.2)))
      | _ => none
  | .resume t returned =>
      let b := (sys.threads t).cache
      match (sys.threads t).phase with
      | .spilling req .evict _ true => some (sys.setPhase t b (.forwarding req none))
      | .spilling req ttype data true =>
          (sys.setPhase t b .idle).fetched cl t b req data (foundState ttype) returned
      | .fetching req ttype (some data) =>
          (sys.setPhase t b .idle).fetched cl t b req data
            (if cl.snooped b then missedState ttype else .uniqueClean) returned
      | .evicting req cline news i ts _ true =>
          sys.finishFetch cl t b req cline news i ts returned
      | .flushing req i ts _ true =>
          ((sys.caches b).releaseInvalid i ((cl.geometry b).index req.addr) ts).bind
            fun released =>
              ((sys.setPhase t b .idle).setCache b released).startEvict cl t b req
      | .forwarding req (some answer) => some (sys.setPhase t b (.done req answer))
      | _ => none

end System

end Prazor.Caches
