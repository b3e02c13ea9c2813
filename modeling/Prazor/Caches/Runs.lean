import Prazor.Caches.Cluster
import Prazor.Caches.OperationSpecs

/-!
# What a thread can do between two suspensions

`Run` lists everything one uninterrupted piece of the code of a thread can do
to the cluster: each of its cases is a leaf of the source, with the facts that
have been checked on the way there.  Every action other than the answer to a
snoop is a chain of such pieces, so an invariant only has to be shown for the
cases of `Run` and for the answers.
-/

namespace Prazor.Caches

open Prazor.Bytes

/-- The address of the request a thread works on. -/
def Phase.addr : Phase → ℕ
  | .idle => 0
  | .snooping req .. | .spilling req .. | .fetching req .. | .arriving req ..
  | .evicting req .. | .flushing req .. | .forwarding req .. | .done req .. => req.addr

/-- The request a thread works on is known to have been asked for. -/
def Phase.AsksFor (Asked : Request → Prop) : Phase → Prop
  | .idle => True
  | .snooping req .. | .spilling req .. | .fetching req .. | .arriving req ..
  | .evicting req .. | .flushing req .. | .forwarding req .. | .done req .. => Asked req

theorem Phase.asksFor_true (p : Phase) : p.AsksFor fun _ => True := by
  cases p <;> trivial

/-- The request goes past the caches to the storage, or is done: the thread will
fetch no line for it. -/
def Phase.bypasses : Phase → Bool
  | .snooping _ .evict .. | .spilling _ .evict .. | .flushing .. | .forwarding ..
  | .done .. => true
  | _ => false

namespace System

/-! ## Updates -/

@[simp]
theorem caches_setPhase (sys : System) (t b : ℕ) (p : Phase) :
    (sys.setPhase t b p).caches = sys.caches := rfl

@[simp]
theorem storage_setPhase (sys : System) (t b : ℕ) (p : Phase) :
    (sys.setPhase t b p).storage = sys.storage := rfl

@[simp]
theorem servedRequests_setPhase (sys : System) (t b : ℕ) (p : Phase) :
    (sys.setPhase t b p).servedRequests = sys.servedRequests := rfl

@[simp]
theorem waitEvents_setPhase (sys : System) (t b : ℕ) (p : Phase) :
    (sys.setPhase t b p).waitEvents = sys.waitEvents := rfl

@[simp]
theorem threads_setPhase_self (sys : System) (t b : ℕ) (p : Phase) :
    (sys.setPhase t b p).threads t = { cache := b, phase := p } :=
  Function.update_self _ _ _

theorem threads_setPhase_of_ne (sys : System) {t t' : ℕ} (hne : t' ≠ t) (b : ℕ)
    (p : Phase) : (sys.setPhase t b p).threads t' = sys.threads t' :=
  Function.update_of_ne hne _ _

@[simp]
theorem caches_setCache_self (sys : System) (b : ℕ) (cache : Ccache) :
    (sys.setCache b cache).caches b = cache := Function.update_self _ _ _

theorem caches_setCache_of_ne (sys : System) {b j : ℕ} (hne : j ≠ b) (cache : Ccache) :
    (sys.setCache b cache).caches j = sys.caches j := Function.update_of_ne hne _ _

@[simp]
theorem threads_setCache (sys : System) (b : ℕ) (cache : Ccache) :
    (sys.setCache b cache).threads = sys.threads := rfl

@[simp]
theorem storage_setCache (sys : System) (b : ℕ) (cache : Ccache) :
    (sys.setCache b cache).storage = sys.storage := rfl

@[simp]
theorem setPhase_setPhase (sys : System) (t b b' : ℕ) (p q : Phase) :
    (sys.setPhase t b p).setPhase t b' q = sys.setPhase t b' q := by
  simp [setPhase]

@[simp]
theorem setCache_setCache (sys : System) (b : ℕ) (cache cache' : Ccache) :
    (sys.setCache b cache).setCache b cache' = sys.setCache b cache' := by
  simp [setCache]

theorem setCache_setPhase (sys : System) (t b b' : ℕ) (cache : Ccache) (p : Phase) :
    (sys.setPhase t b p).setCache b' cache = (sys.setCache b' cache).setPhase t b p := rfl

/-- The waiting thread of a port has been woken. -/
def clearEvent (sys : System) (b : ℕ) : System :=
  { sys with waitEvents := Function.update sys.waitEvents b false }

@[simp]
theorem caches_clearEvent (sys : System) (b : ℕ) : (sys.clearEvent b).caches = sys.caches :=
  rfl

@[simp]
theorem threads_clearEvent (sys : System) (b : ℕ) :
    (sys.clearEvent b).threads = sys.threads := rfl

@[simp]
theorem storage_clearEvent (sys : System) (b : ℕ) :
    (sys.clearEvent b).storage = sys.storage := rfl

/-! ## The pieces -/

variable (cl : Cluster) (Asked : Request → Prop) (t b addr : ℕ)

/-- The bytes of a write, merged into the line they hit. -/
def writtenLine (g : Geometry) (cache : Ccache) (i : ℕ) (req : Request) : Buffer :=
  Ccache.mergeAt (g.offset req.addr) req.length (cache.fillDisabled g i req).data
    (cache.bytesOf g i (g.line req.addr))

/-- The answer to a write, with its disabled bytes filled in. -/
def writeDone (g : Geometry) (cache : Ccache) (i : ℕ) (req : Request) : Phase :=
  .done (cache.fillDisabled g i req)
    { data := (cache.fillDisabled g i req).data, ok := true }

/-- The answer to a read of a line with these bytes. -/
def readDone (g : Geometry) (req : Request) (line : Buffer) : Phase :=
  .done req
    { data := memcpy req.length (fun k => line (g.offset req.addr + k)) req.data
      ok := true }

/-- A plain access of the cached address space, one that was asked for. -/
structure Plain (req : Request) : Prop where
  asked : Asked req
  addr_eq : req.addr = addr
  unlinked : req.linked = none
  cached : uncached addr = false

/-- What a snoop came back with, once all answers are there. -/
structure Found (replies : ℕ → Reply) (j : ℕ) (state : LineState) : Prop where
  first : foundReply cl b replies = some j
  state_eq : (replies j).state = state

/-- One uninterrupted piece of thread `t`, working for cache `b` on the line of
`addr`.  `Asked` is what is known of the requests that are started. -/
inductive Run : System → System → Prop
  | lower {sys : System} {cache' : Ccache}
      (hlowers : Ccache.Lowers (cl.geometry b) (sys.caches b) cache')
      (hlru : (sys.caches b).lru < (cl.geometry b).ways →
        cache'.lru < (cl.geometry b).ways) :
      Run sys (sys.setCache b cache')
  | readHit {sys : System} {req : Request} {i : ℕ}
      (hphase : (sys.threads t).phase = .idle) (hplain : Plain Asked addr req)
      (hread : req.write = false)
      (hlookup : (sys.caches b).lookup (cl.geometry b) ((cl.geometry b).index addr)
        ((cl.geometry b).tag addr) = some i) :
      Run sys (sys.setPhase t b (readDone (cl.geometry b) req
        ((sys.caches b).bytesOf (cl.geometry b) i ((cl.geometry b).line addr))))
  | writeHit {sys : System} {req : Request} {i : ℕ} {cache' : Ccache}
      (hphase : (sys.threads t).phase = .idle) (hplain : Plain Asked addr req)
      (hwrite : req.write = true) (hlanes : req.benable.isSome → req.length = req.blength)
      (hlookup : (sys.caches b).lookup (cl.geometry b) ((cl.geometry b).index addr)
        ((cl.geometry b).tag addr) = some i)
      (hstate : (sys.caches b).stateOf (cl.geometry b) i ((cl.geometry b).line addr) =
          .uniqueClean ∨
        (sys.caches b).stateOf (cl.geometry b) i ((cl.geometry b).line addr) =
          .uniqueDirty)
      (hdirties : Ccache.Dirties (cl.geometry b) (sys.caches b) cache' i
        ((cl.geometry b).line addr) (writtenLine (cl.geometry b) (sys.caches b) i req))
      (hlru : cache'.lru = (sys.caches b).lru) :
      Run sys ((sys.setCache b cache').setPhase t b
        (writeDone (cl.geometry b) (sys.caches b) i req))
  | fetch {sys sys' : System} {req : Request} {ttype : Transaction}
      (hphase : (sys.threads t).phase = .idle) (hplain : Plain Asked addr req)
      (habsent : (sys.caches b).Absent (cl.geometry b) ((cl.geometry b).line addr))
      (htype : ttype = if req.write then
          if req.length = (cl.geometry b).linesize then .makeUnique else .readUnique
        else .readShared)
      (hlanes : req.write = true → req.benable.isSome → req.length = req.blength)
      (hstart : sys.startSnoop cl t b req ttype (0, 0) = some sys') :
      Run sys sys'
  | makeInvalid {sys sys' : System} {req : Request} {i : ℕ}
      (hphase : (sys.threads t).phase = .idle) (hplain : Plain Asked addr req)
      (hwrite : req.write = true) (hlanes : req.benable.isSome → req.length = req.blength)
      (hlookup : (sys.caches b).lookup (cl.geometry b) ((cl.geometry b).index addr)
        ((cl.geometry b).tag addr) = some i)
      (hstate : (sys.caches b).stateOf (cl.geometry b) i ((cl.geometry b).line addr) =
        .sharedClean)
      (hstart : sys.startSnoop cl t b req .makeInvalid (i, (sys.caches b).word i
        ((cl.geometry b).line addr % (cl.geometry b).columns)) = some sys') :
      Run sys sys'
  | upgrade {sys : System} {req : Request} {i : ℕ} {oldts : Word64} {pending : List ℕ}
      {replies : ℕ → Reply} {cache' : Ccache}
      (hphase : (sys.threads t).phase =
        .snooping req .makeInvalid (i, oldts) pending true replies)
      (haddr : req.addr = addr)
      (hword : (sys.caches b).word i
        ((cl.geometry b).line addr % (cl.geometry b).columns) = oldts &&& ~~~1)
      (hdirties : Ccache.Dirties (cl.geometry b) (sys.caches b) cache' i
        ((cl.geometry b).line addr) (writtenLine (cl.geometry b) (sys.caches b) i req))
      (hlru : cache'.lru = (sys.caches b).lru) :
      Run sys (((sys.clearEvent b).setCache b cache').setPhase t b
        (writeDone (cl.geometry b) (sys.caches b) i req))
  | lost {sys : System} {req : Request} {upgrade : ℕ × Word64} {pending : List ℕ}
      {replies : ℕ → Reply}
      (hphase : (sys.threads t).phase =
        .snooping req .makeInvalid upgrade pending true replies) :
      Run sys ((sys.clearEvent b).setPhase t b .idle)
  | wakeArrive {sys : System} {req : Request} {ttype : Transaction}
      {upgrade : ℕ × Word64} {pending : List ℕ} {replies : ℕ → Reply} {j : ℕ}
      {state : LineState}
      (hphase : (sys.threads t).phase = .snooping req ttype upgrade pending true replies)
      (htype : ttype.isFetch = true) (hfound : Found cl b replies j state)
      (hstate : state = .uniqueClean ∨ state = .sharedClean) :
      Run sys ((sys.clearEvent b).setPhase t b (.arriving req
        (arrivedLine (cl.geometry b) req (replies j).data)
        (arrivedState req (foundState ttype))))
  | wakeGarbage {sys : System} {req : Request} {upgrade : ℕ × Word64}
      {pending : List ℕ} {replies : ℕ → Reply} (garbage : Buffer)
      (hphase : (sys.threads t).phase =
        .snooping req .makeUnique upgrade pending true replies)
      (hmissed : foundReply cl b replies = none) :
      Run sys ((sys.clearEvent b).setPhase t b (.arriving req
        (arrivedLine (cl.geometry b) req garbage) (arrivedState req .uniqueDirty)))
  | wakeMiss {sys : System} {req : Request} {ttype : Transaction}
      {upgrade : ℕ × Word64} {pending : List ℕ} {replies : ℕ → Reply}
      (hphase : (sys.threads t).phase = .snooping req ttype upgrade pending true replies)
      (htype : ttype = .readShared ∨ ttype = .readUnique)
      (hmissed : foundReply cl b replies = none) :
      Run sys ((sys.clearEvent b).setPhase t b (.fetching req ttype none))
  | wakeSpill {sys : System} {req : Request} {ttype : Transaction}
      {upgrade : ℕ × Word64} {pending : List ℕ} {replies : ℕ → Reply} {j : ℕ}
      (hphase : (sys.threads t).phase = .snooping req ttype upgrade pending true replies)
      (htype : ttype ≠ .makeInvalid) (hfound : Found cl b replies j .uniqueDirty) :
      Run sys ((sys.clearEvent b).setPhase t b (.spilling req ttype (replies j).data false))
  | wakeForward {sys : System} {req : Request} {upgrade : ℕ × Word64}
      {pending : List ℕ} {replies : ℕ → Reply}
      (hphase : (sys.threads t).phase = .snooping req .evict upgrade pending true replies)
      (hclean : ∀ j, foundReply cl b replies = some j →
        (replies j).state ≠ .uniqueDirty) :
      Run sys ((sys.clearEvent b).setPhase t b (.forwarding req none))
  | serveSpill {sys : System} {req : Request} {ttype : Transaction} {data : Buffer}
      (hphase : (sys.threads t).phase = .spilling req ttype data false) :
      Run sys ((sys.setMemory (WriteBack.apply (cl.geometry b) sys.storage.memory
        { addr := cl.lineAddr req.addr, data := data })).setPhase t b
          (.spilling req ttype data true))
  | serveFetch {sys : System} {req : Request} {ttype : Transaction}
      (hphase : (sys.threads t).phase = .fetching req ttype none) :
      Run sys (sys.setPhase t b (.fetching req ttype
        (some fun k => sys.storage.memory (cl.lineAddr req.addr + k))))
  | serveVictim {sys : System} {req : Request} {cline : Buffer} {news : LineState}
      {i : ℕ} {ts : Word64} {write : WriteBack}
      (hphase : (sys.threads t).phase = .evicting req cline news i ts write false) :
      Run sys ((sys.setMemory (WriteBack.apply (cl.geometry b) sys.storage.memory
        write)).setPhase t b (.evicting req cline news i ts write true))
  | serveFlush {sys : System} {req : Request} {i : ℕ} {ts : Word64} {write : WriteBack}
      (hphase : (sys.threads t).phase = .flushing req i ts write false) :
      Run sys ((sys.setMemory (WriteBack.apply (cl.geometry b) sys.storage.memory
        write)).setPhase t b (.flushing req i ts write true))
  | serveForward {sys : System} {req : Request}
      (hphase : (sys.threads t).phase = .forwarding req none) :
      Run sys ({ sys with storage := (sys.storage.access req).1 }.setPhase t b
        (.forwarding req (some (sys.storage.access req).2)))
  | spilled {sys : System} {req : Request} {ttype : Transaction} {data : Buffer}
      (hphase : (sys.threads t).phase = .spilling req ttype data true)
      (htype : ttype ≠ .evict) :
      Run sys (sys.setPhase t b (.arriving req (arrivedLine (cl.geometry b) req data)
        (arrivedState req (foundState ttype))))
  | evictSpilled {sys : System} {req : Request} {data : Buffer}
      (hphase : (sys.threads t).phase = .spilling req .evict data true) :
      Run sys (sys.setPhase t b (.forwarding req none))
  | read {sys : System} {req : Request} {ttype : Transaction} {data : Buffer}
      (hphase : (sys.threads t).phase = .fetching req ttype (some data)) :
      Run sys (sys.setPhase t b (.arriving req (arrivedLine (cl.geometry b) req data)
        (arrivedState req (missedState ttype))))
  | victim {sys : System} {req : Request} {cline : Buffer} {news : LineState} {i : ℕ}
      {ts : Word64} {write : WriteBack}
      (hphase : (sys.threads t).phase = .arriving req cline news)
      (hway : i < (cl.geometry b).ways)
      (hword : (sys.caches b).word i ((cl.geometry b).index req.addr) = ts)
      (hlocked : locked ts = true)
      (hvictim : (sys.caches b).victim (cl.geometry b) i ((cl.geometry b).index req.addr)
        ((cl.geometry b).tag req.addr) (lineState ts) = some write) :
      Run sys (sys.setPhase t b (.evicting req cline news i ts write false))
  | insert {sys : System} {req : Request} {cline : Buffer} {news : LineState} {i : ℕ}
      {cache' : Ccache} {p : Phase}
      (hphase : ((sys.threads t).phase = .arriving req cline news ∧
          (sys.caches b).victim (cl.geometry b) i ((cl.geometry b).index req.addr)
            ((cl.geometry b).tag req.addr) (lineState ((sys.caches b).word i
              ((cl.geometry b).index req.addr))) = none) ∨
        ∃ ts write, (sys.threads t).phase = .evicting req cline news i ts write true ∧
          (sys.caches b).word i ((cl.geometry b).index req.addr) = ts)
      (haddr : req.addr = addr)
      (hinserts : Ccache.Inserts (cl.geometry b) (sys.caches b) cache' i
        ((cl.geometry b).line addr) news cline)
      (hlru : cache'.lru = (sys.caches b).lru)
      (hnext : (req.write = true ∧ p = .idle) ∨
        (req.write = true ∧ p = .done req { data := req.data, ok := true }) ∨
        (req.write = false ∧ p = readDone (cl.geometry b) req cline)) :
      Run sys ((sys.setCache b cache').setPhase t b p)
  | abandon {sys : System} {req : Request} {cline : Buffer} {news : LineState} {p : Phase}
      (hphase : (sys.threads t).phase = .arriving req cline news)
      (hlocked : ∃ i, i < (cl.geometry b).ways ∧
        locked ((sys.caches b).word i ((cl.geometry b).index req.addr)) = true)
      (hnext : p = .idle ∨
        (req.write = true ∧ p = .done req { data := req.data, ok := true })) :
      Run sys (sys.setPhase t b p)
  | flush {sys : System} {req : Request} {i : ℕ} (hasked : Asked req)
      (hphase : (sys.threads t).phase = .idle) (haddr : req.addr = addr)
      (hlinked : req.linked.isSome)
      (hlookup : (sys.caches b).lookup (cl.geometry b) ((cl.geometry b).index addr)
        ((cl.geometry b).tag addr) = some i)
      (hstate : (sys.caches b).stateOf (cl.geometry b) i ((cl.geometry b).line addr) =
        .uniqueDirty)
      (hunlocked : locked ((sys.caches b).word i ((cl.geometry b).index addr)) = false) :
      Run sys ((sys.setCache b ((sys.caches b).setStatus i ((cl.geometry b).index addr)
        ((sys.caches b).word i ((cl.geometry b).index addr) ||| 1))).setPhase t b
          (.flushing req i ((sys.caches b).word i ((cl.geometry b).index addr) ||| 1)
            { addr := (cl.geometry b).lineAddr addr
              data := (sys.caches b).bytesOf (cl.geometry b) i
                ((cl.geometry b).line addr) } false))
  | evictMiss {sys sys' : System} {req : Request} (hasked : Asked req)
      (hphase : (sys.threads t).phase = .idle) (haddr : req.addr = addr)
      (hlinked : req.linked.isSome)
      (habsent : (sys.caches b).Absent (cl.geometry b) ((cl.geometry b).line addr))
      (hstart : sys.startSnoop cl t b req .evict (0, 0) = some sys') :
      Run sys sys'
  | evictHit {sys sys' : System} {req : Request} {i : ℕ} {cache' : Ccache}
      (hasked : Asked req)
      (hphase : (sys.threads t).phase = .idle ∨ ∃ ts write,
        (sys.threads t).phase = .flushing req i ts write true ∧
        (sys.caches b).word i ((cl.geometry b).index req.addr) = ts)
      (haddr : req.addr = addr) (hlinked : req.linked.isSome ∨ ∃ ts write,
        (sys.threads t).phase = .flushing req i ts write true)
      (hclean : (sys.threads t).phase = .idle → Ccache.Found (cl.geometry b)
          (sys.caches b) ((cl.geometry b).line addr) i ∧
        (sys.caches b).stateOf (cl.geometry b) i ((cl.geometry b).line addr) ≠
          .uniqueDirty)
      (hlowers : Ccache.Lowers (cl.geometry b) (sys.caches b) cache')
      (hlru : cache'.lru = (sys.caches b).lru)
      (hgone : cache'.stateOf (cl.geometry b) i ((cl.geometry b).line addr) = .invalid)
      (hstart : ((sys.setPhase t b .idle).setCache b cache').startSnoop cl t b req
        .evict (0, 0) = some sys') :
      Run sys sys'
  | forward {sys : System} {req : Request} (hasked : Asked req)
      (hphase : (sys.threads t).phase = .idle) (haddr : req.addr = addr)
      (hlinked : req.linked = none) (huncached : uncached addr = true) :
      Run sys (sys.setPhase t b (.forwarding req none))
  | answered {sys : System} {req : Request} {answer : Answer}
      (hphase : (sys.threads t).phase = .forwarding req (some answer)) :
      Run sys (sys.setPhase t b (.done req answer))

/-- A chain of pieces. -/
abbrev Runs : System → System → Prop := Relation.ReflTransGen (Run cl Asked t b addr)

end System

end Prazor.Caches
