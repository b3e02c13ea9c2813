import Prazor.Bus.SriOwnership

/-!
# Serialisation of requests at their home node

A crossbar processes one request at a time for the lines its node owns.  A
request that comes while another is in progress is queued; the unblock message
that ends a request takes the next one from the queue and, if the node still
owns its line, hands it back through the event queue, else sends it on to the
owner.  The messages a processed request causes go to other modules and are
left out, as is the time a request was paused.
-/

namespace Prazor.Bus.Crossbar

variable {n : ℕ}

/-- The fields of a `req_msg` and of its transaction that are read here. -/
structure ReqMsg (n : ℕ) where
  cacheAddr : Word64
  homeNode : Fin n
  /-- The transaction carries an `llsc_extension`. -/
  llsc : Bool
  deriving DecidableEq

/-- The members of one crossbar, the requests that wait in `m_peq`, the address
tables of all nodes, and what has become of the requests so far; no step reads
these records. -/
structure State (n : ℕ) where
  reqBusy : Bool
  reqQueue : List (ReqMsg n)
  peq : List (ReqMsg n)
  tables : Sri.Ring n
  arrived : List (ReqMsg n)
  /-- Being processed: their unblock has not come. -/
  processing : List (ReqMsg n)
  processed : List (ReqMsg n)
  /-- Sent on to the owner of the line, which is their home node from now on. -/
  forwarded : List (ReqMsg n × Fin n)
  /-- On their way to another home node. -/
  passed : List (ReqMsg n)

/-- A crossbar as constructed.  No constructor sets `req_busy`, which has the
value `garbage` its storage had. -/
def powerOn (garbage : Bool) (tables : Sri.Ring n) : State n where
  reqBusy := garbage
  reqQueue := []
  peq := []
  tables := tables
  arrived := []
  processing := []
  processed := []
  forwarded := []
  passed := []

inductive Event (n : ℕ) where
  /-- A request message comes in. -/
  | request (reqm : ReqMsg n)
  /-- The event queue hands back the request at a position. -/
  | redeliver (position : ℕ)
  /-- An unblock message comes in; `llsc` is about its own transaction. -/
  | unblock (destNode : Fin n) (llsc : Bool)
  /-- Ownership changes somewhere. -/
  | move (tables : Sri.Ring n)

/-- `req_incoming`, from both sources of requests. -/
def reqIncoming (nodeNumber : Fin n) (state : State n) (reqm : ReqMsg n) :
    State n :=
  if reqm.homeNode = nodeNumber then
    if state.reqBusy then
      { state with reqQueue := state.reqQueue ++ [reqm] }
    else
      { state with
        reqBusy := true
        processing := state.processing ++ [reqm] }
  else
    { state with passed := state.passed ++ [reqm] }

/-- The node after this one, in ring order, whose table has the address, and
the DRAM address it has there. -/
def findOwner [NeZero n] (nodeNumber : Fin n) (tables : Sri.Ring n)
    (cacheAddr : Word64) : Option (Fin n × Word64) :=
  (Sri.findOther tables nodeNumber cacheAddr).bind fun owner =>
    ((tables owner).addressMap cacheAddr).map fun realAddr => (owner, realAddr)

/-- What `unblock_incoming` does with the request it takes from the queue;
`none` when an assertion fails. -/
def release [NeZero n] (nodeNumber : Fin n) (state : State n) (llsc : Bool)
    (t : ReqMsg n) : Option (State n) :=
  if t.cacheAddr ∈ (state.tables nodeNumber).addressTable then
    some { state with peq := state.peq ++ [t] }
  else
    (findOwner nodeNumber state.tables t.cacheAddr).bind fun (owner, realAddr) =>
      if realAddr = 0 ∨ llsc ∨ t.llsc then
        none
      else
        some { state with
          forwarded := state.forwarded ++ [(t, owner)] }

/-- `unblock_incoming`; the message answers the request in progress. -/
def unblockIncoming [NeZero n] (nodeNumber : Fin n) (state : State n)
    (destNode : Fin n) (llsc : Bool) : Option (State n) :=
  if destNode = nodeNumber then
    if state.reqBusy then
      let state := { state with
        reqBusy := false
        processing := state.processing.tail
        processed := state.processed ++ state.processing.take 1 }
      match state.reqQueue with
      | [] => some state
      | t :: rest => release nodeNumber { state with reqQueue := rest } llsc t
    else
      none
  else
    some state

/-- One message; an unblock to this node comes only while a request is in
progress, and every request is answered by one. -/
def step [NeZero n] (nodeNumber : Fin n) (state : State n) :
    Event n → Option (State n)
  | .request reqm =>
      some (reqIncoming nodeNumber
        { state with arrived := state.arrived ++ [reqm] } reqm)
  | .redeliver position =>
      state.peq[position]?.map fun t =>
        reqIncoming nodeNumber { state with peq := state.peq.eraseIdx position } t
  | .unblock destNode llsc =>
      if destNode = nodeNumber ∧ state.processing = [] then none
      else unblockIncoming nodeNumber state destNode llsc
  | .move tables => some { state with tables := tables }

/-! ## What serialisation means -/

/-- One request at a time, none lost or doubled, and a queued one has something
to wait for: the unblock of the request in progress, or a re-delivery. -/
structure Serial (state : State n) : Prop where
  alone : state.processing.length ≤ 1
  once : ∀ reqm, state.arrived.count reqm =
    state.reqQueue.count reqm + state.peq.count reqm +
      state.processing.count reqm + state.processed.count reqm +
      (state.forwarded.map Prod.fst).count reqm + state.passed.count reqm
  notIdle : state.reqQueue ≠ [] →
    (state.reqBusy = true ∧ state.processing ≠ []) ∨ state.peq ≠ []

/-- What is needed beyond that from step to step. -/
structure Inv (nodeNumber : Fin n) (state : State n) : Prop
    extends Serial state where
  busy : state.reqBusy = true ↔ state.processing ≠ []
  home : ∀ reqm, reqm ∈ state.reqQueue ∨ reqm ∈ state.peq →
    reqm.homeNode = nodeNumber

section Steps

variable [NeZero n] {nodeNumber : Fin n}

/-- An unblock that takes a request off the queue finds it owned here; or finds
its owner, and leaves nothing queued that no re-delivery will look at. -/
def Releases (nodeNumber : Fin n) (state : State n) : Event n → Prop
  | .unblock destNode llsc =>
      ∀ t rest, destNode = nodeNumber → state.reqQueue = t :: rest →
        t.cacheAddr ∈ (state.tables nodeNumber).addressTable ∨
          ((rest = [] ∨ state.peq ≠ []) ∧ llsc = false ∧ t.llsc = false ∧
            ∃ owner realAddr, realAddr ≠ 0 ∧
              findOwner nodeNumber state.tables t.cacheAddr =
                some (owner, realAddr))
  | _ => True

omit [NeZero n] in
theorem powerOn_inv (nodeNumber : Fin n) (tables : Sri.Ring n) :
    Inv nodeNumber (powerOn false tables) where
  alone := Nat.zero_le 1
  once _ := by simp [powerOn]
  notIdle hqueue := absurd rfl hqueue
  busy := by simp [powerOn]
  home _ hreqm := by simp [powerOn] at hreqm

omit [NeZero n] in
/-- A request that is new to the node, or handed back to it, whatever the rest
of the bookkeeping says. -/
theorem reqIncoming_inv {state : State n} {reqm : ReqMsg n}
    (halone : state.processing.length ≤ 1)
    (honce : ∀ other, state.arrived.count other =
      state.reqQueue.count other + state.peq.count other +
        state.processing.count other + state.processed.count other +
        (state.forwarded.map Prod.fst).count other + state.passed.count other +
        [reqm].count other)
    (hidle : state.reqQueue ≠ [] → reqm.homeNode ≠ nodeNumber →
      (state.reqBusy = true ∧ state.processing ≠ []) ∨ state.peq ≠ [])
    (hbusy : state.reqBusy = true ↔ state.processing ≠ [])
    (hhome : ∀ other, other ∈ state.reqQueue ∨ other ∈ state.peq →
      other.homeNode = nodeNumber) :
    Inv nodeNumber (reqIncoming nodeNumber state reqm) := by
  rw [reqIncoming]
  split
  case isTrue hnode =>
    split
    case isTrue hflag =>
      refine ⟨⟨halone, ?_, fun _ => Or.inl ⟨hflag, hbusy.mp hflag⟩⟩, hbusy, ?_⟩
      · intro other
        have := honce other
        simp only [List.count_append]
        omega
      · intro other hother
        rcases hother with hother | hother
        · rcases List.mem_append.mp hother with hold | hnew
          · exact hhome other (Or.inl hold)
          · exact List.mem_singleton.mp hnew ▸ hnode
        · exact hhome other (Or.inr hother)
    case isFalse hflag =>
      have hnone : state.processing = [] := by
        by_contra hsome
        exact hflag (hbusy.mpr hsome)
      refine ⟨⟨?_, ?_, ?_⟩, ?_, hhome⟩
      · simp [hnone]
      · intro other
        have := honce other
        simp only [List.count_append]
        omega
      · intro _
        exact Or.inl ⟨rfl, by simp⟩
      · simp
  case isFalse hnode =>
    refine ⟨⟨halone, ?_, fun hqueue => hidle hqueue hnode⟩, hbusy, hhome⟩
    intro other
    have := honce other
    simp only [List.count_append]
    omega

theorem unblock_inv {state next : State n} (hinv : Inv nodeNumber state)
    {destNode : Fin n} {llsc : Bool}
    (hguard : Releases nodeNumber state (.unblock destNode llsc))
    (hstep : unblockIncoming nodeNumber state destNode llsc = some next) :
    Inv nodeNumber next := by
  rw [unblockIncoming] at hstep
  split at hstep
  case isFalse => exact Option.some.inj hstep ▸ hinv
  case isTrue hnode =>
    split at hstep
    case isFalse => simp at hstep
    case isTrue hflag =>
      have hone : ∃ reqm, state.processing = [reqm] := by
        have hsome := hinv.busy.mp hflag
        have hlength := hinv.alone
        cases hprocessing : state.processing with
        | nil => exact absurd hprocessing hsome
        | cons reqm rest =>
            rw [hprocessing, List.length_cons] at hlength
            have hrest : rest = [] := List.eq_nil_of_length_eq_zero (by omega)
            exact ⟨reqm, by rw [hrest]⟩
      obtain ⟨reqm, hreqm⟩ := hone
      have honce := hinv.once
      simp only [hreqm] at honce
      cases hqueue : state.reqQueue with
      | nil =>
          simp only [hqueue, hreqm, List.tail_cons, List.take_succ_cons,
            List.take_zero, Option.some.injEq] at hstep
          subst hstep
          refine ⟨⟨Nat.zero_le 1, ?_, fun hne => absurd rfl hne⟩, by simp, ?_⟩
          · intro other
            have hother := honce other
            rw [hqueue] at hother
            simp only [List.count_append, List.count_nil] at hother ⊢
            omega
          · intro other hother
            exact hinv.home other (hqueue ▸ hother)
      | cons t rest =>
          simp only [hqueue, hreqm, List.tail_cons, List.take_succ_cons,
            List.take_zero] at hstep
          have hhome : t.homeNode = nodeNumber :=
            hinv.home t (Or.inl (by simp [hqueue]))
          have hothers : ∀ other, other ∈ rest ∨ other ∈ state.peq →
              other.homeNode = nodeNumber := by
            intro other hother
            refine hinv.home other (hother.imp_left fun hmem => ?_)
            rw [hqueue]
            exact List.mem_cons_of_mem t hmem
          have hcount : ∀ other, state.reqQueue.count other =
              rest.count other + [t].count other := by
            intro other
            rw [hqueue, ← List.count_append]
            exact (List.perm_append_singleton t rest).symm.count_eq other
          rw [release] at hstep
          split at hstep
          case isTrue howned =>
            rw [← Option.some.inj hstep]
            refine ⟨⟨Nat.zero_le 1, ?_, fun _ => Or.inr (by simp)⟩, by simp, ?_⟩
            · intro other
              have hother := honce other
              rw [hcount] at hother
              simp only [List.count_append, List.count_nil]
              omega
            · intro other hother
              rcases hother with hother | hother
              · exact hothers other (Or.inl hother)
              · rcases List.mem_append.mp hother with hold | hnew
                · exact hothers other (Or.inr hold)
                · exact List.mem_singleton.mp hnew ▸ hhome
          case isFalse howned =>
            obtain ⟨hleft, hllsc, htllsc, owner, realAddr, hreal, hfind⟩ :=
              (hguard t rest hnode hqueue).resolve_left howned
            simp only [hfind, Option.bind_some, hreal, hllsc, htllsc,
              Bool.false_eq_true, or_self, if_false, Option.some.injEq] at hstep
            subst hstep
            refine ⟨⟨Nat.zero_le 1, ?_, ?_⟩, by simp, hothers⟩
            · intro other
              have hother := honce other
              rw [hcount] at hother
              simp only [List.map_append, List.map_cons, List.map_nil,
                List.count_append, List.count_nil]
              omega
            · intro hrest
              exact Or.inr (hleft.resolve_left hrest)

/-- Every guarded step keeps the invariant. -/
theorem step_inv {state next : State n} (hinv : Inv nodeNumber state)
    {event : Event n} (hguard : Releases nodeNumber state event)
    (hstep : step nodeNumber state event = some next) : Inv nodeNumber next := by
  cases event with
  | request reqm =>
      rw [← Option.some.inj hstep]
      refine reqIncoming_inv hinv.alone ?_ (fun hqueue _ => hinv.notIdle hqueue)
        hinv.busy hinv.home
      intro other
      have hother := hinv.once other
      simp only [List.count_append]
      omega
  | redeliver position =>
      obtain ⟨t, ht, rfl⟩ := Option.map_eq_some_iff.mp hstep
      obtain ⟨hlt, hget⟩ := List.getElem?_eq_some_iff.mp ht
      have hmem : t ∈ state.peq := hget ▸ List.getElem_mem hlt
      have hhome := hinv.home t (Or.inr hmem)
      refine reqIncoming_inv hinv.alone ?_ ?_ hinv.busy ?_
      · intro other
        have hother := hinv.once other
        have hperm := (List.getElem_cons_eraseIdx_perm hlt).count_eq other
        rw [hget, ← List.singleton_append, List.count_append] at hperm
        simp only
        omega
      · intro _ hne
        exact absurd hhome hne
      · intro other hother
        exact hinv.home other (hother.imp_right List.mem_of_mem_eraseIdx)
  | unblock destNode llsc =>
      rw [step] at hstep
      split at hstep
      case isTrue => simp at hstep
      case isFalse => exact unblock_inv hinv hguard hstep
  | move tables =>
      rw [← Option.some.inj hstep]
      exact ⟨⟨hinv.alone, hinv.once, hinv.notIdle⟩, hinv.busy, hinv.home⟩

/-- Nothing but a failing assertion can keep the message from being taken. -/
def Possible (nodeNumber : Fin n) (state : State n) : Event n → Prop
  | .redeliver position => position < state.peq.length
  | .unblock destNode _ => destNode = nodeNumber → state.processing ≠ []
  | _ => True

/-- No guarded message fails an assertion. -/
theorem step_total {state : State n} (hinv : Inv nodeNumber state)
    {event : Event n} (hguard : Releases nodeNumber state event)
    (hpossible : Possible nodeNumber state event) :
    ∃ next, step nodeNumber state event = some next := by
  cases event with
  | request reqm => exact ⟨_, rfl⟩
  | redeliver position =>
      simp only [step, List.getElem?_eq_getElem hpossible, Option.map_some]
      exact ⟨_, rfl⟩
  | unblock destNode llsc =>
      by_cases hnode : destNode = nodeNumber
      · have hsome := hpossible hnode
        have hflag := hinv.busy.mpr hsome
        simp only [step, hnode, hsome, and_false, if_false, unblockIncoming,
          if_true, hflag]
        cases hqueue : state.reqQueue with
        | nil => exact ⟨_, rfl⟩
        | cons t rest =>
            simp only [release]
            split
            case isTrue => exact ⟨_, rfl⟩
            case isFalse howned =>
              obtain ⟨-, hllsc, htllsc, owner, realAddr, hreal, hfind⟩ :=
                (hguard t rest hnode hqueue).resolve_left howned
              simp only [hfind, Option.bind_some, hreal, hllsc, htllsc,
                Bool.false_eq_true, or_self, if_false]
              exact ⟨_, rfl⟩
      · simp only [step, hnode, false_and, if_false, unblockIncoming]
        exact ⟨_, rfl⟩
  | move tables => exact ⟨_, rfl⟩

theorem findOwner_mem {tables : Sri.Ring n} {cacheAddr : Word64} {owner : Fin n}
    {realAddr : Word64}
    (hfind : findOwner nodeNumber tables cacheAddr = some (owner, realAddr)) :
    cacheAddr ∈ (tables owner).addressTable := by
  obtain ⟨found, hfound, hmap⟩ := Option.bind_eq_some_iff.mp hfind
  obtain ⟨_, -, heq⟩ := Option.map_eq_some_iff.mp hmap
  obtain ⟨rfl, -⟩ : found = owner ∧ _ := by simpa using heq
  exact Sri.mem_findOther hfound

/-- A request is sent on only to a node whose table has its line. -/
theorem forwarded_step {state next : State n} {event : Event n}
    (hstep : step nodeNumber state event = some next) {reqm : ReqMsg n}
    {owner : Fin n} (hmem : (reqm, owner) ∈ next.forwarded) :
    (reqm, owner) ∈ state.forwarded ∨
      reqm.cacheAddr ∈ (state.tables owner).addressTable := by
  have hincoming : ∀ (before : State n) t,
      (reqIncoming nodeNumber before t).forwarded = before.forwarded := by
    intro before t
    rw [reqIncoming]
    split
    · split <;> rfl
    · rfl
  cases event with
  | request other =>
      rw [← Option.some.inj hstep, hincoming] at hmem
      exact Or.inl hmem
  | redeliver position =>
      obtain ⟨t, -, rfl⟩ := Option.map_eq_some_iff.mp hstep
      rw [hincoming] at hmem
      exact Or.inl hmem
  | move tables =>
      rw [← Option.some.inj hstep] at hmem
      exact Or.inl hmem
  | unblock destNode llsc =>
      rw [step] at hstep
      split at hstep
      case isTrue => simp at hstep
      case isFalse =>
        rw [unblockIncoming] at hstep
        split at hstep
        case isFalse => exact Or.inl (Option.some.inj hstep ▸ hmem)
        case isTrue =>
          split at hstep
          case isFalse => simp at hstep
          case isTrue =>
            simp only at hstep
            split at hstep
            case h_1 =>
              rw [← Option.some.inj hstep] at hmem
              exact Or.inl hmem
            case h_2 t rest hqueue =>
              rw [release] at hstep
              split at hstep
              case isTrue =>
                rw [← Option.some.inj hstep] at hmem
                exact Or.inl hmem
              case isFalse =>
                obtain ⟨⟨found, realAddr⟩, hfind, hsend⟩ :=
                  Option.bind_eq_some_iff.mp hstep
                simp only at hsend
                split at hsend
                case isTrue => simp at hsend
                case isFalse =>
                  rw [← Option.some.inj hsend] at hmem
                  rcases List.mem_append.mp hmem with hold | hnew
                  · exact Or.inl hold
                  · obtain ⟨rfl, rfl⟩ : reqm = t ∧ owner = found := by
                      simpa using hnew
                    exact Or.inr (findOwner_mem hfind)

/-- A request sent on while others are queued and no re-delivery is on its way
leaves the node idle with the others in its queue: the condition on the rest of
the queue cannot be dropped. -/
theorem not_serial_of_stranding {state next : State n} {llsc : Bool}
    {t : ReqMsg n} {rest : List (ReqMsg n)}
    (hqueue : state.reqQueue = t :: rest)
    (howned : t.cacheAddr ∉ (state.tables nodeNumber).addressTable)
    (hrest : rest ≠ []) (hpeq : state.peq = [])
    (hstep : step nodeNumber state (.unblock nodeNumber llsc) = some next) :
    ¬Serial next := by
  rw [step] at hstep
  split at hstep
  case isTrue => simp at hstep
  case isFalse =>
    rw [unblockIncoming, if_pos rfl] at hstep
    split at hstep
    case isFalse => simp at hstep
    case isTrue =>
      simp only [hqueue, release, howned, if_false] at hstep
      obtain ⟨⟨found, realAddr⟩, -, hsend⟩ := Option.bind_eq_some_iff.mp hstep
      simp only at hsend
      split at hsend
      case isTrue => simp at hsend
      case isFalse =>
        rw [← Option.some.inj hsend]
        intro hserial
        rcases hserial.notIdle hrest with ⟨hbusy, -⟩ | hredeliver
        · simp at hbusy
        · exact hredeliver hpeq

/-- A crossbar whose storage held a false `req_busy`, and whose unblocks strand
nobody, serialises the requests: no message is dropped by an assertion, and
only the owner of a line is sent a request for it. -/
theorem serial_of_releases (nodeNumber : Fin n) (tables : Sri.Ring n)
    (events : List (Event n)) (state : State n)
    (hguard : Guarded.Meets (step nodeNumber) (Releases nodeNumber)
      (powerOn false tables) events)
    (hrun : Guarded.exec (step nodeNumber) (powerOn false tables) events =
      some state) :
    Serial state ∧
      (∀ event, Releases nodeNumber state event →
        Possible nodeNumber state event →
          ∃ next, step nodeNumber state event = some next) ∧
      ∀ event next reqm owner, step nodeNumber state event = some next →
        (reqm, owner) ∈ next.forwarded → (reqm, owner) ∈ state.forwarded ∨
          reqm.cacheAddr ∈ (state.tables owner).addressTable := by
  have hkeeps : ∀ state event next, Inv nodeNumber state →
      Releases nodeNumber state event → step nodeNumber state event = some next →
        Inv nodeNumber next :=
    fun _ _ _ hinv hguard hstep => step_inv hinv hguard hstep
  have hinv := Guarded.exec_invariant hkeeps (powerOn_inv nodeNumber tables)
    hguard hrun
  exact ⟨hinv.toSerial, fun _ => step_total hinv,
    fun _ _ _ _ hstep hmem => forwarded_step hstep hmem⟩

end Steps

section Runs

/-- A node that has the given lines, at DRAM addresses of their own. -/
def nodeWith (cacheAddrs : Finset Word64) : Sri.Node where
  addressTable := cacheAddrs
  addressMap := fun addr => if addr ∈ cacheAddrs then some (addr + 0x1000) else none
  emptyAddr := []
  lastAddr := 0x8000

/-- Three requests wait for lines of node 0; the second line moves away before
the first request ends. -/
def strandingRun : List (Event 2) :=
  [.request ⟨0x40, 0, false⟩, .request ⟨0x80, 0, false⟩,
    .request ⟨0x40, 0, false⟩, .move ![nodeWith {0x40}, nodeWith {0x80}],
    .unblock 0 false]

/-- The third request is left in the queue of an idle node. -/
theorem not_serial_stranding :
    ¬∀ (garbage : Bool) (tables : Sri.Ring 2) (events : List (Event 2))
      (state : State 2),
      Guarded.exec (step 0) (powerOn garbage tables) events = some state →
        Serial state := by
  intro hclaim
  have hserial := hclaim false ![nodeWith {0x40, 0x80}, nodeWith ∅] strandingRun _ rfl
  rcases hserial.notIdle (by decide) with ⟨hbusy, -⟩ | hpeq
  · exact absurd hbusy (by decide)
  · exact absurd rfl hpeq

/-- The same without the third request. -/
def forwardingRun : List (Event 2) :=
  [.request ⟨0x40, 0, false⟩, .request ⟨0x80, 0, false⟩,
    .move ![nodeWith {0x40}, nodeWith {0x80}], .unblock 0 false]

/-- The request for the line that moved away is sent on, and nobody is left. -/
theorem serial_of_releases_forwarding :
    ∃ state : State 2,
      Guarded.exec (step 0)
        (powerOn false ![nodeWith {0x40, 0x80}, nodeWith ∅]) forwardingRun =
          some state ∧ state.forwarded = [(⟨0x80, 0, false⟩, 1)] ∧
        Serial state := by
  refine ⟨_, rfl, by decide, ?_⟩
  refine (serial_of_releases 0 ![nodeWith {0x40, 0x80}, nodeWith ∅]
    forwardingRun _ ?_ rfl).1
  refine ⟨trivial, fun _ hfirst => ⟨trivial, fun _ hsecond => ⟨trivial, fun _ hmove =>
    ⟨?_, fun _ _ => trivial⟩⟩⟩⟩
  obtain rfl := Option.some.inj hfirst
  obtain rfl := Option.some.inj hsecond
  obtain rfl := Option.some.inj hmove
  intro t rest _ hqueue
  obtain ⟨rfl, rfl⟩ : ⟨0x80, 0, false⟩ = t ∧ [] = rest := by
    simpa using List.cons.inj hqueue
  exact Or.inr ⟨Or.inl rfl, rfl, rfl, 1, 0x1080, by decide, by decide⟩

end Runs

end Prazor.Bus.Crossbar
