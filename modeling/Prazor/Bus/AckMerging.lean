import Prazor.Core.Guarded
import Prazor.Core.Payload

/-!
# Merging the acknowledgements of a read

A node that reads a line gets one acknowledgement from every node.  Those that
carry data are merged into the waiting transaction as they arrive: the line of a
cache, the line of the DRAM, or the enabled bytes of a write buffer.  What is kept
between two arrivals is the type of the strongest answer so far and, after an
answer of a write buffer, its byte lanes.

The requester is woken by the last acknowledgement and erases the entries of its
address before another one arrives.  The writes to the line, the unblock message and
the counts of bytes on the bus are left out.
-/

namespace Prazor.Bus.AckMerging

/-- `ack_msg::ack_type`, in the order of the enumeration. -/
inductive AckType where
  | unknown
  | dram
  | cache
  | wb
  deriving DecidableEq

/-- The value of the enumerator. -/
def AckType.value : AckType → ℕ
  | unknown => 0
  | dram => 1
  | cache => 2
  | wb => 3

/-- What `cache_miss_extension::resp` tells the cache; `none` is `CT_UNKNOWN`. -/
inductive MissKind where
  | missShared
  | missExclusive
  | missDirty
  deriving DecidableEq

/-- A byte enable is `TLM_BYTE_DISABLED` or `TLM_BYTE_ENABLED`. -/
abbrev Lane := { lane : Byte // lane = 0x00 ∨ lane = 0xFF }

/-- The data pointer and the byte enables of a transaction. -/
structure LineData (len : ℕ) where
  bytes : Fin len → Byte
  lanes : Fin len → Lane

/-- An acknowledgement; `data` is `none` when its transaction has no data pointer. -/
structure Ack (len : ℕ) where
  origNode : ℕ
  resp : AckType
  data : Option (LineData len)

/-- The node of the requester: `m_total_sockets`, and `init_socket.size()`, the last
of which leads to the crossbar and the others to caches. -/
structure Node where
  totalSockets : ℕ
  initSockets : ℕ
  crossbar : 0 < initSockets

/-- The entries of an address: `ack_msgs`, `ack_msgs_bits`, `ack_response` and
`ack_wb_lanes`, with the line and the extension of the waiting transaction.  Once
`woken`, the requester has erased the entries. -/
structure Entries (len : ℕ) where
  ackMsgs : ℕ
  ackMsgsBits : Finset ℕ
  ackResponse : AckType
  ackWbLanes : Option (Fin len → Lane)
  line : Fin len → Byte
  missResp : Option MissKind
  woken : Bool

variable {len : ℕ}

/-- The entries as the requester makes them before it waits. -/
def request (line : Fin len → Byte) : Entries len :=
  { ackMsgs := 0
    ackMsgsBits := ∅
    ackResponse := .unknown
    ackWbLanes := none
    line := line
    missResp := none
    woken := false }

/-- The condition under which an answer is merged into what was kept. -/
def takes (kept resp : AckType) : Bool :=
  kept = .unknown ∨ (kept = .dram ∧ (resp = .cache ∨ resp = .wb)) ∨ resp = .wb ∨
    (kept = .wb ∧ resp = .dram)

/-- The bytes of an answer that get into the line of a read. -/
def copy (entries : Entries len) (resp : AckType) (data : LineData len) :
    Option (Entries len) :=
  if resp = .wb then
    match entries.ackWbLanes with
    | some _ => none
    | none => some
        { entries with
          ackWbLanes := some data.lanes
          line := fun i =>
            if (data.lanes i).1 = 0xFF then data.bytes i else entries.line i }
  else if entries.ackResponse = .wb then
    match entries.ackWbLanes with
    | none => none
    | some lanes => some
        { entries with
          line := fun i => if (lanes i).1 = 0x00 then data.bytes i else entries.line i }
  else some { entries with line := data.bytes }

/-- An answer with data.  A cache that answers after a write buffer fails the
assertion `this shouldn't occur (?)`. -/
def merge (entries : Entries len) (resp : AckType) (data : LineData len) :
    Option (Entries len) :=
  if entries.ackResponse = .wb ∧ resp = .cache then none
  else if takes entries.ackResponse resp then
    (copy entries resp data).map fun copied =>
      { copied with
        ackResponse :=
          if entries.ackResponse.value < resp.value then resp else entries.ackResponse }
  else some entries

/-- The miss kind told to the cache; without an answer an assertion fails. -/
def missKind : AckType → Option MissKind
  | .unknown => none
  | .cache => some .missShared
  | .dram => some .missExclusive
  | .wb => some .missDirty

/-- Wake the requester up. -/
def wake (entries : Entries len) : Entries len :=
  { entries with ackResponse := .unknown, ackWbLanes := none, woken := true }

/-- The end of the acknowledgement case: after the last one the requester is woken. -/
def finish (node : Node) (entries : Entries len) : Option (Entries len) :=
  if entries.ackMsgs = node.totalSockets ∨ (node.initSockets = 1 ∧ entries.ackMsgs = 1) then
    if entries.ackMsgsBits.card = node.totalSockets ∨
        (node.initSockets = 1 ∧ entries.ackMsgsBits.card = 1) then
      if 1 < node.initSockets then
        (missKind entries.ackResponse).map fun kind =>
          wake { entries with missResp := some kind }
      else some (wake entries)
    else none
  else some entries

/-- The acknowledgement is counted. -/
def count (entries : Entries len) (ack : Ack len) : Entries len :=
  { entries with
    ackMsgs := entries.ackMsgs + 1
    ackMsgsBits := insert ack.origNode entries.ackMsgsBits }

/-- Merge the data of the acknowledgement, if it has any. -/
def answer (entries : Entries len) (ack : Ack len) : Option (Entries len) :=
  match ack.data with
  | none => some entries
  | some data => merge entries ack.resp data

/-- `peq_cb` for an acknowledgement that arrives at the requester of a read; `none`
when an assertion fails. -/
def peqCb (node : Node) (entries : Entries len) (ack : Ack len) : Option (Entries len) :=
  if entries.woken then none
  else if node.totalSockets ≤ ack.origNode then none
  else (answer (count entries ack) ack).bind (finish node)

/-! ## What the acknowledgements say -/

/-- The data of an acknowledgement of a type. -/
def Ack.dataOf (ack : Ack len) (resp : AckType) : Option (LineData len) :=
  if ack.resp = resp then ack.data else none

/-- The data of the acknowledgements of a type. -/
def answersOf (acks : List (Ack len)) (resp : AckType) : List (LineData len) :=
  acks.filterMap fun ack => ack.dataOf resp

/-- The acknowledgements of a read: one from each node, and data from at most one
cache, one write buffer and one DRAM. -/
structure Answers (node : Node) (acks : List (Ack len)) : Prop where
  origins : (acks.map Ack.origNode).Perm (List.range node.totalSockets)
  typed : ∀ ack ∈ acks, ack.dataOf .unknown = none
  one : ∀ resp, (answersOf acks resp).length ≤ 1

/-- The answer of each type among the acknowledgements. -/
def heard (acks : List (Ack len)) (resp : AckType) : Option (LineData len) :=
  (answersOf acks resp).head?

/-- A byte of the cache's line, else of the DRAM's, else of the requester's own. -/
def lineByte (said : AckType → Option (LineData len)) (line : Fin len → Byte)
    (i : Fin len) : Byte :=
  match said .cache, said .dram with
  | some cache, _ => cache.bytes i
  | none, some dram => dram.bytes i
  | none, none => line i

/-- A byte of the write buffer if its lane is set, else of the line. -/
def readByte (said : AckType → Option (LineData len)) (line : Fin len → Byte)
    (i : Fin len) : Byte :=
  match said .wb with
  | some wb => if (wb.lanes i).1 = 0xFF then wb.bytes i else lineByte said line i
  | none => lineByte said line i

/-- Whatever the order of arrival, no assertion fails and the requester is woken with
the line that the acknowledgements say and always the same miss kind. -/
def OrderFree (node : Node) (line : Fin len → Byte) (acks : List (Ack len)) : Prop :=
  ∃ kind, ∀ order : List (Ack len), order.Perm acks →
    ∃ final, Guarded.exec (peqCb node) (request line) order = some final ∧
      final.woken = true ∧ final.missResp = kind ∧
      final.line = readByte (heard acks) line

/-! ## What is kept between two acknowledgements -/

/-- The strongest type among the answers. -/
def strongest (said : AckType → Option (LineData len)) : AckType :=
  if (said .wb).isSome then .wb
  else if (said .cache).isSome then .cache
  else if (said .dram).isSome then .dram
  else .unknown

/-- The entries after answers that do not come both from a cache and from a write
buffer. -/
def keep (said : AckType → Option (LineData len)) (line : Fin len → Byte)
    (entries : Entries len) : Entries len :=
  { entries with
    ackResponse := strongest said
    ackWbLanes := (said .wb).map LineData.lanes
    line := readByte said line }

/-- A cache and a write buffer have both answered. -/
def Clash (said : AckType → Option (LineData len)) : Prop :=
  (said .cache).isSome ∧ (said .wb).isSome

/-- A lane is disabled exactly when it is not enabled. -/
theorem disabled_iff (lane : Lane) : lane.1 = 0x00 ↔ lane.1 ≠ 0xFF := by
  rcases lane with ⟨lane, rfl | rfl⟩ <;> decide

/-- A DRAM that answers gives the bytes that neither a cache nor a write buffer gave. -/
theorem merge_dram {said : AckType → Option (LineData len)} (line : Fin len → Byte)
    (entries : Entries len) (data : LineData len) (hnew : said .dram = none)
    (hclash : ¬ (Clash said)) :
    merge (keep said line entries) .dram data =
      some (keep (Function.update said .dram (some data)) line entries) := by
  rcases hwb : said .wb with _ | wb
  · rcases hcache : said .cache with _ | cache
    · have hline : readByte (Function.update said .dram (some data)) line = data.bytes := by
        ext1 i
        simp [readByte, lineByte, hwb, hcache]
      simp [merge, keep, takes, copy, strongest, hwb, hcache, hnew, hline, AckType.value]
    · have hline : readByte (Function.update said .dram (some data)) line =
          readByte said line := by
        ext1 i
        simp [readByte, lineByte, hwb, hcache]
      simp [merge, keep, takes, strongest, hwb, hcache, hline]
  · have hcache : said .cache = none := by
      simpa [Clash, hwb] using hclash
    have hline : readByte (Function.update said .dram (some data)) line = fun i =>
        if (wb.lanes i).1 = 0x00 then data.bytes i else readByte said line i := by
      ext1 i
      simp only [disabled_iff, readByte, lineByte, hwb, hcache, ne_eq, reduceCtorEq,
        not_false_eq_true, Function.update_of_ne, Function.update_self, ite_not]
      split <;> rfl
    simp [merge, keep, takes, copy, strongest, hwb, hline, AckType.value]

theorem merge_cache {said : AckType → Option (LineData len)} (line : Fin len → Byte)
    (entries : Entries len) (data : LineData len) (hnew : said .cache = none)
    (hclash : ¬ Clash (Function.update said .cache (some data))) :
    merge (keep said line entries) .cache data =
      some (keep (Function.update said .cache (some data)) line entries) := by
  have hwb : said .wb = none := by
    simpa [Clash] using hclash
  have hline : readByte (Function.update said .cache (some data)) line = data.bytes := by
    ext1 i
    simp [readByte, lineByte, hwb]
  rcases hdram : said .dram with _ | dram <;>
    simp [merge, keep, takes, copy, strongest, hwb, hnew, hdram, hline, AckType.value]

theorem merge_wb {said : AckType → Option (LineData len)} (line : Fin len → Byte)
    (entries : Entries len) (data : LineData len) (hnew : said .wb = none)
    (hclash : ¬ Clash (Function.update said .wb (some data))) :
    merge (keep said line entries) .wb data =
      some (keep (Function.update said .wb (some data)) line entries) := by
  have hcache : said .cache = none := by
    simpa [Clash] using hclash
  have hline : readByte (Function.update said .wb (some data)) line = fun i =>
      if (data.lanes i).1 = 0xFF then data.bytes i else readByte said line i := by
    ext1 i
    simp [readByte, lineByte, hnew]
  rcases hdram : said .dram with _ | dram <;>
    simp [merge, keep, takes, copy, strongest, hnew, hcache, hdram, hline, AckType.value]

/-- One answer more is merged, unless it is the second of its type, untyped, or makes a
cache and a write buffer clash. -/
theorem merge_keep {said : AckType → Option (LineData len)} (line : Fin len → Byte)
    (entries : Entries len) {resp : AckType} (data : LineData len)
    (hnew : said resp = none) (hresp : resp ≠ .unknown)
    (hclash : ¬ Clash (Function.update said resp (some data))) :
    merge (keep said line entries) resp data =
      some (keep (Function.update said resp (some data)) line entries) := by
  cases resp with
  | unknown => exact absurd rfl hresp
  | dram => exact merge_dram line entries data hnew (by simpa [Clash] using hclash)
  | cache => exact merge_cache line entries data hnew hclash
  | wb => exact merge_wb line entries data hnew hclash

/-! ## A number of acknowledgements -/

theorem answersOf_append_singleton (seen : List (Ack len)) (ack : Ack len)
    (resp : AckType) :
    answersOf (seen ++ [ack]) resp = answersOf seen resp ++ (ack.dataOf resp).toList := by
  rw [answersOf, List.filterMap_append]
  cases hdata : ack.dataOf resp <;> simp [answersOf, hdata]

theorem heard_append_singleton (seen : List (Ack len)) (ack : Ack len) (resp : AckType) :
    heard (seen ++ [ack]) resp = (heard seen resp).or (ack.dataOf resp) := by
  simp only [heard, answersOf_append_singleton, List.head?_append, Option.head?_toList]

/-- Something is heard when an acknowledgement says it. -/
theorem heard_isSome_iff {acks : List (Ack len)} {resp : AckType} :
    (heard acks resp).isSome ↔ ∃ ack ∈ acks, (ack.dataOf resp).isSome := by
  simp [heard, answersOf, List.findSome?_isSome_iff]

/-- The entries after the acknowledgements `seen`, all but the last. -/
def collected (line : Fin len → Byte) (seen : List (Ack len)) : Entries len :=
  keep (heard seen) line
    { request line with
      ackMsgs := seen.length
      ackMsgsBits := (seen.map Ack.origNode).toFinset }

/-- Counting an acknowledgement leaves what was merged alone. -/
theorem count_collected (line : Fin len → Byte) (seen : List (Ack len)) (ack : Ack len) :
    count (collected line seen) ack =
      keep (heard seen) line
        { request line with
          ackMsgs := (seen ++ [ack]).length
          ackMsgsBits := ((seen ++ [ack]).map Ack.origNode).toFinset } := by
  have hbits : insert ack.origNode (seen.map Ack.origNode).toFinset =
      ((seen ++ [ack]).map Ack.origNode).toFinset := by
    rw [List.map_append, List.toFinset_append, Finset.union_comm]
    rfl
  simp only [count, collected, keep, hbits, List.length_append, List.length_singleton]

/-- An acknowledgement without data is only counted. -/
theorem heard_append_of_none (seen : List (Ack len)) {ack : Ack len}
    (hdata : ack.data = none) : heard (seen ++ [ack]) = heard seen := by
  ext1 resp
  simp [heard_append_singleton, Ack.dataOf, hdata]

/-- An acknowledgement with data adds the answer of its type. -/
theorem heard_append_of_some {seen : List (Ack len)} {ack : Ack len} {data : LineData len}
    (hdata : ack.data = some data) (hnew : heard seen ack.resp = none) :
    heard (seen ++ [ack]) = Function.update (heard seen) ack.resp (some data) := by
  ext1 resp
  rw [heard_append_singleton]
  rcases eq_or_ne resp ack.resp with rfl | hresp
  · rw [hnew, Function.update_self, Option.none_or, Ack.dataOf, if_pos rfl, hdata]
  · rw [Function.update_of_ne hresp, Ack.dataOf, if_neg hresp.symm, Option.or_none]

/-- With one answer of each type, the type of a new answer has not been heard. -/
theorem heard_eq_none {seen : List (Ack len)} {ack : Ack len} {data : LineData len}
    (hdata : ack.data = some data)
    (hone : (answersOf (seen ++ [ack]) ack.resp).length ≤ 1) :
    heard seen ack.resp = none := by
  rw [answersOf_append_singleton, Ack.dataOf, if_pos rfl, hdata, List.length_append,
    Option.toList_some, List.length_singleton] at hone
  rw [heard, List.head?_eq_none_iff, ← List.length_eq_zero_iff]
  omega

/-- What one acknowledgement more does, as long as no cache and write buffer clash. -/
theorem answer_collected (line : Fin len → Byte) {seen : List (Ack len)} {ack : Ack len}
    (htyped : ack.dataOf .unknown = none)
    (hone : ∀ resp, (answersOf (seen ++ [ack]) resp).length ≤ 1)
    (hclash : ¬ Clash (heard (seen ++ [ack]))) :
    answer (count (collected line seen) ack) ack = some (collected line (seen ++ [ack])) := by
  rw [count_collected, answer]
  cases hdata : ack.data with
  | none => simp only [collected, heard_append_of_none seen hdata]
  | some data =>
      have hnew : heard seen ack.resp = none :=
        heard_eq_none hdata (hone ack.resp)
      have hresp : ack.resp ≠ .unknown := by
        intro hresp
        rw [Ack.dataOf, if_pos hresp, hdata] at htyped
        exact absurd htyped (Option.some_ne_none data)
      rw [heard_append_of_some hdata hnew] at hclash
      simp only [collected, heard_append_of_some hdata hnew]
      exact merge_keep line _ data hnew hresp hclash

/-! ## A whole order of arrival -/

theorem answersOf_perm {acks order : List (Ack len)} (hperm : order.Perm acks)
    (resp : AckType) : (answersOf order resp).Perm (answersOf acks resp) :=
  hperm.filterMap _

/-- Any order of the same acknowledgements is again one acknowledgement from each node. -/
theorem Answers.perm {node : Node} {acks order : List (Ack len)}
    (hanswers : Answers node acks) (hperm : order.Perm acks) : Answers node order where
  origins := (hperm.map Ack.origNode).trans hanswers.origins
  typed ack hack := hanswers.typed ack (hperm.mem_iff.mp hack)
  one resp := by
    rw [(answersOf_perm hperm resp).length_eq]
    exact hanswers.one resp

theorem Answers.length_eq {node : Node} {acks : List (Ack len)}
    (hanswers : Answers node acks) : acks.length = node.totalSockets := by
  calc acks.length = (acks.map Ack.origNode).length := (List.length_map Ack.origNode).symm
    _ = (List.range node.totalSockets).length := hanswers.origins.length_eq
    _ = node.totalSockets := List.length_range

/-- The order of arrival does not change what is heard: there is at most one answer of
each type. -/
theorem heard_perm {node : Node} {acks order : List (Ack len)}
    (hanswers : Answers node acks) (hperm : order.Perm acks) : heard order = heard acks := by
  ext1 resp
  have hanswer := answersOf_perm hperm resp
  have hone := hanswers.one resp
  rw [heard, heard]
  rcases hacks : answersOf acks resp with _ | ⟨data, _ | ⟨other, rest⟩⟩
  · rw [hacks] at hanswer
    rw [hanswer.eq_nil]
  · rw [hacks] at hanswer
    rw [hanswer.eq_singleton]
  · rw [hacks, List.length_cons, List.length_cons] at hone
    omega

/-- A prefix of the acknowledgements has at most one answer of each type, too. -/
theorem length_answersOf_initial {seen acks : List (Ack len)} (hinitial : seen <+: acks)
    (resp : AckType) : (answersOf seen resp).length ≤ (answersOf acks resp).length :=
  (hinitial.filterMap _).length_le

theorem Clash.of_initial {seen acks : List (Ack len)} (hinitial : seen <+: acks)
    (hclash : Clash (heard seen)) : Clash (heard acks) := by
  have hheard : ∀ resp, (heard seen resp).isSome → (heard acks resp).isSome := by
    intro resp hsome
    obtain ⟨ack, hack, hdata⟩ := heard_isSome_iff.mp hsome
    exact heard_isSome_iff.mpr ⟨ack, hinitial.subset hack, hdata⟩
  exact ⟨hheard .cache hclash.1, hheard .wb hclash.2⟩

/-- An acknowledgement is merged, and may be the last. -/
theorem peqCb_collected {node : Node} (line : Fin len → Byte) {order seen : List (Ack len)}
    {ack : Ack len} (hanswers : Answers node order) (hinitial : seen ++ [ack] <+: order)
    (hclash : ¬ Clash (heard (seen ++ [ack]))) :
    peqCb node (collected line seen) ack =
      finish node (collected line (seen ++ [ack])) := by
  have hmem : ack ∈ order := hinitial.subset (by simp)
  have horigin : ack.origNode < node.totalSockets := by
    have hnode := hanswers.origins.mem_iff.mp (List.mem_map_of_mem hmem)
    exact List.mem_range.mp hnode
  have hone : ∀ resp, (answersOf (seen ++ [ack]) resp).length ≤ 1 := fun resp =>
    (length_answersOf_initial hinitial resp).trans (hanswers.one resp)
  rw [peqCb, if_neg (by simp [collected, keep, request]), if_neg (by omega),
    answer_collected line (hanswers.typed ack hmem) hone hclash]
  rfl

/-- Until the last acknowledgement the requester waits. -/
theorem finish_collected_of_lt {node : Node} (line : Fin len → Byte)
    {seen : List (Ack len)} (hcaches : 1 < node.initSockets)
    (hlt : seen.length < node.totalSockets) :
    finish node (collected line seen) = some (collected line seen) := by
  rw [finish, if_neg]
  rintro (hlast | ⟨hone, -⟩)
  · exact absurd hlast hlt.ne
  · exact absurd hone hcaches.ne'

/-- With caches, all acknowledgements but the last are merged while the requester waits. -/
theorem exec_collected {node : Node} (line : Fin len → Byte) {order seen : List (Ack len)}
    (hcaches : 1 < node.initSockets) (hanswers : Answers node order)
    (hclash : ¬ Clash (heard order)) (hinitial : seen <+: order)
    (hlt : seen.length < order.length) :
    Guarded.exec (peqCb node) (request line) seen = some (collected line seen) := by
  induction seen using List.reverseRecOn with
  | nil => rfl
  | append_singleton seen ack ih =>
      have hlength : (seen ++ [ack]).length = seen.length + 1 := by simp
      rw [Guarded.exec_append, ih ((List.prefix_append seen [ack]).trans hinitial) (by omega),
        Option.bind_some, Guarded.exec_cons,
        peqCb_collected line hanswers hinitial fun hseen => hclash (hseen.of_initial hinitial),
        finish_collected_of_lt line hcaches (hanswers.length_eq ▸ hlt)]
      rfl

/-- The last acknowledgement wakes the requester and tells the strongest answer. -/
theorem finish_collected {node : Node} (line : Fin len → Byte) {order : List (Ack len)}
    (hcaches : 1 < node.initSockets) (hanswers : Answers node order) :
    finish node (collected line order) =
      (missKind (strongest (heard order))).map fun kind =>
        wake { collected line order with missResp := some kind } := by
  have hmsgs : (collected line order).ackMsgs = node.totalSockets := hanswers.length_eq
  have hbits : (collected line order).ackMsgsBits.card = node.totalSockets := by
    calc (order.map Ack.origNode).toFinset.card = (order.map Ack.origNode).length :=
          List.toFinset_card_of_nodup (hanswers.origins.nodup_iff.mpr List.nodup_range)
      _ = order.length := List.length_map Ack.origNode
      _ = node.totalSockets := hanswers.length_eq
  rw [finish, if_pos (Or.inl hmsgs), if_pos (Or.inl hbits), if_pos hcaches]
  rfl

/-- Every order of arrival without a clash ends the same way. -/
theorem exec_order {node : Node} (line : Fin len → Byte) {order : List (Ack len)}
    (hcaches : 1 < node.initSockets) (hanswers : Answers node order)
    (hclash : ¬ Clash (heard order)) (hnonempty : order ≠ []) :
    Guarded.exec (peqCb node) (request line) order =
      (missKind (strongest (heard order))).map fun kind =>
        wake { collected line order with missResp := some kind } := by
  rcases List.eq_nil_or_concat order with hnil | ⟨seen, ack, hlast⟩
  · exact absurd hnil hnonempty
  · rw [List.concat_eq_append] at hlast
    have hseen : Guarded.exec (peqCb node) (request line) seen = some (collected line seen) :=
      exec_collected line hcaches hanswers hclash ⟨[ack], hlast.symm⟩ (by simp [hlast])
    rw [← finish_collected line hcaches hanswers]
    subst hlast
    rw [Guarded.exec_append, hseen, Option.bind_some, Guarded.exec_cons,
      peqCb_collected line hanswers List.prefix_rfl hclash]
    exact Option.bind_fun_some _

/-! ## Orders that fail an assertion -/

/-- The type of an acknowledgement with data of a type. -/
theorem Ack.resp_of_dataOf {ack : Ack len} {resp : AckType}
    (hdata : (ack.dataOf resp).isSome) : ack.resp = resp := by
  by_contra hne
  rw [Ack.dataOf, if_neg hne] at hdata
  contradiction

/-- One acknowledgement is not from a cache and from a write buffer. -/
theorem not_clash_singleton (ack : Ack len) : ¬ Clash (heard [ack]) := by
  rintro ⟨hcache, hwb⟩
  rw [heard_isSome_iff] at hcache hwb
  obtain ⟨_, hmem, hcache⟩ := hcache
  obtain ⟨_, hmem', hwb⟩ := hwb
  rw [List.mem_singleton] at hmem hmem'
  subst hmem hmem'
  exact absurd ((Ack.resp_of_dataOf hcache).symm.trans (Ack.resp_of_dataOf hwb)) (by decide)

/-- The first acknowledgement never fails an assertion by itself. -/
theorem peqCb_first {node : Node} (line : Fin len → Byte) {ack : Ack len}
    {rest : List (Ack len)} (hanswers : Answers node (ack :: rest)) :
    peqCb node (request line) ack = finish node (collected line [ack]) := by
  have hinitial : [] ++ [ack] <+: ack :: rest := ⟨rest, rfl⟩
  exact peqCb_collected line hanswers hinitial (not_clash_singleton ack)

/-- A cache that answers after a write buffer fails an assertion. -/
theorem peqCb_eq_none {node : Node} (line : Fin len → Byte) {wb cache : Ack len}
    (hwb : (wb.dataOf .wb).isSome) (hcache : (cache.dataOf .cache).isSome) :
    peqCb node (collected line [wb]) cache = none := by
  have hkept : (collected line [wb]).ackResponse = .wb := by
    have hheard : (heard [wb] .wb).isSome :=
      heard_isSome_iff.mpr ⟨wb, List.mem_singleton_self wb, hwb⟩
    simp only [collected, keep, strongest, hheard, if_true]
  have hresp : cache.resp = .cache := cache.resp_of_dataOf hcache
  rw [Ack.dataOf, if_pos hresp] at hcache
  obtain ⟨data, hdata⟩ := Option.isSome_iff_exists.mp hcache
  have hmerge : answer (count (collected line [wb]) cache) cache = none := by
    rw [answer, hdata]
    exact if_pos ⟨hkept, hresp⟩
  rw [peqCb, hmerge]
  split_ifs <;> rfl

/-- After its only acknowledgement a node without caches wakes the requester. -/
theorem finish_singleton {node : Node} (line : Fin len → Byte) (ack : Ack len)
    (halone : node.initSockets = 1) :
    finish node (collected line [ack]) = some (wake (collected line [ack])) := by
  have hbits : (collected line [ack]).ackMsgsBits.card = 1 := Finset.card_singleton _
  rw [finish, if_pos (Or.inr ⟨halone, rfl⟩), if_pos (Or.inr ⟨halone, hbits⟩),
    if_neg (by omega)]

/-- An answer that is not of the type `UNKNOWN` is stronger than none. -/
theorem strongest_ne_unknown {said : AckType → Option (LineData len)} {resp : AckType}
    (hresp : resp ≠ .unknown) (hsaid : (said resp).isSome) : strongest said ≠ .unknown := by
  cases resp with
  | unknown => exact absurd rfl hresp
  | dram => unfold strongest; split_ifs <;> decide
  | cache => unfold strongest; split_ifs <;> decide
  | wb => simp [strongest, hsaid]

/-- Nothing is kept exactly when no acknowledgement has data. -/
theorem strongest_eq_unknown_iff {node : Node} {acks : List (Ack len)}
    (hanswers : Answers node acks) :
    strongest (heard acks) = .unknown ↔ ∀ ack ∈ acks, ack.data = none := by
  constructor
  · intro hstrongest ack hack
    by_contra hdata
    have hsome : ack.dataOf ack.resp ≠ none := by rwa [Ack.dataOf, if_pos rfl]
    have hresp : ack.resp ≠ .unknown := by
      intro hresp
      exact hsome (by rw [hresp, hanswers.typed ack hack])
    exact strongest_ne_unknown hresp
      (heard_isSome_iff.mpr ⟨ack, hack, Option.isSome_iff_ne_none.mpr hsome⟩) hstrongest
  · intro hnone
    have hheard : ∀ resp, (heard acks resp).isSome = false := by
      intro resp
      rw [← Bool.not_eq_true, heard_isSome_iff]
      rintro ⟨ack, hack, hsome⟩
      simp [Ack.dataOf, hnone ack hack] at hsome
    simp [strongest, hheard]

/-! ## When the order does not matter -/

/-- With caches and without a clash, any order gives the line and the kind. -/
theorem orderFree_of_not_clash {node : Node} (line : Fin len → Byte) {acks : List (Ack len)}
    (hcaches : 1 < node.initSockets) (hanswers : Answers node acks)
    (hdata : ∃ ack ∈ acks, ack.data ≠ none) (hclash : ¬ Clash (heard acks)) :
    OrderFree node line acks := by
  refine ⟨missKind (strongest (heard acks)), fun order hperm => ?_⟩
  have hheard : heard order = heard acks := heard_perm hanswers hperm
  obtain ⟨ack, hack, hsome⟩ := hdata
  have hnonempty : order ≠ [] := List.ne_nil_of_mem (hperm.mem_iff.mpr hack)
  have hstrongest : strongest (heard acks) ≠ .unknown := fun hunknown =>
    hsome ((strongest_eq_unknown_iff hanswers).mp hunknown ack hack)
  obtain ⟨kind, hkind⟩ : ∃ kind, missKind (strongest (heard acks)) = some kind := by
    cases hcase : strongest (heard acks) with
    | unknown => exact absurd hcase hstrongest
    | dram => exact ⟨_, rfl⟩
    | cache => exact ⟨_, rfl⟩
    | wb => exact ⟨_, rfl⟩
  have hexec := exec_order line hcaches (hanswers.perm hperm) (hheard ▸ hclash) hnonempty
  rw [hheard, hkind, Option.map_some] at hexec
  exact ⟨_, hexec, rfl, hkind.symm, congrArg (readByte · line) hheard⟩

/-- The write buffer can answer first and the cache next. -/
theorem exists_wb_first {acks : List (Ack len)} {cache wb : Ack len} (hcache : cache ∈ acks)
    (hcacheData : (cache.dataOf .cache).isSome) (hwb : wb ∈ acks)
    (hwbData : (wb.dataOf .wb).isSome) : ∃ rest, (wb :: cache :: rest).Perm acks := by
  classical
  have hne : cache ≠ wb := by
    rintro rfl
    exact absurd (Ack.resp_of_dataOf hcacheData ▸ Ack.resp_of_dataOf hwbData) (by decide)
  have hrest : cache ∈ acks.erase wb := (List.mem_erase_of_ne hne).mpr hcache
  exact ⟨(acks.erase wb).erase cache,
    (((List.perm_cons_erase hrest).symm.cons wb).trans (List.perm_cons_erase hwb).symm)⟩

/-- A clash fails an assertion when the write buffer answers first and the cache next. -/
theorem not_orderFree_of_clash {node : Node} (line : Fin len → Byte) {acks : List (Ack len)}
    (hcaches : 1 < node.initSockets) (hanswers : Answers node acks)
    (hclash : Clash (heard acks)) : ¬ OrderFree node line acks := by
  rintro ⟨kind, horders⟩
  obtain ⟨cache, hcache, hcacheData⟩ := heard_isSome_iff.mp hclash.1
  obtain ⟨wb, hwb, hwbData⟩ := heard_isSome_iff.mp hclash.2
  obtain ⟨rest, hrest⟩ := exists_wb_first hcache hcacheData hwb hwbData
  have hanswers' := hanswers.perm hrest
  obtain ⟨final, hfinal, -⟩ := horders _ hrest
  have hlt : [wb].length < node.totalSockets := by
    rw [← hanswers'.length_eq, List.length_cons, List.length_cons]
    simp
  rw [Guarded.exec_cons, peqCb_first line hanswers', finish_collected_of_lt line hcaches hlt,
    Option.bind_some, Guarded.exec_cons, peqCb_eq_none line hwbData hcacheData] at hfinal
  exact absurd hfinal (Option.some_ne_none final).symm

/-- Without any data an assertion fails, or nobody answers at all. -/
theorem not_orderFree_of_no_data {node : Node} (line : Fin len → Byte)
    {acks : List (Ack len)} (hcaches : 1 < node.initSockets) (hanswers : Answers node acks)
    (hnone : ∀ ack ∈ acks, ack.data = none) : ¬ OrderFree node line acks := by
  rintro ⟨kind, horders⟩
  obtain ⟨final, hfinal, hwoken, -⟩ := horders acks (List.Perm.refl acks)
  have hunknown := (strongest_eq_unknown_iff hanswers).mpr hnone
  rcases List.eq_nil_or_concat acks with rfl | ⟨seen, ack, hlast⟩
  · rw [Guarded.exec_nil, Option.some.injEq] at hfinal
    rw [← hfinal] at hwoken
    exact absurd hwoken Bool.false_ne_true
  · have hclash : ¬ Clash (heard acks) := fun hclash =>
      strongest_ne_unknown (by decide) hclash.2 hunknown
    have hnonempty : acks ≠ [] := by simp [hlast]
    rw [exec_order line hcaches hanswers hclash hnonempty, hunknown] at hfinal
    exact absurd hfinal (Option.some_ne_none final).symm

/-- A node without caches waits for one acknowledgement only. -/
theorem orderFree_alone_iff {node : Node} (line : Fin len → Byte) {acks : List (Ack len)}
    (halone : node.initSockets = 1) (hanswers : Answers node acks) :
    OrderFree node line acks ↔ node.totalSockets = 1 := by
  rw [← hanswers.length_eq, List.length_eq_one_iff]
  constructor
  · rintro ⟨kind, horders⟩
    obtain ⟨final, hfinal, hwoken, -⟩ := horders acks (List.Perm.refl acks)
    rcases acks with _ | ⟨ack, _ | ⟨next, rest⟩⟩
    · rw [Guarded.exec_nil, Option.some.injEq] at hfinal
      rw [← hfinal] at hwoken
      exact absurd hwoken Bool.false_ne_true
    · exact ⟨ack, rfl⟩
    · rw [Guarded.exec_cons, peqCb_first line hanswers, finish_singleton line ack halone] at hfinal
      exact absurd hfinal (by simp [Guarded.exec_cons, peqCb, wake])
  · rintro ⟨ack, rfl⟩
    refine ⟨none, fun order hperm => ?_⟩
    rw [List.perm_singleton.mp hperm]
    refine ⟨wake (collected line [ack]), ?_, rfl, rfl, rfl⟩
    rw [Guarded.exec_cons, peqCb_first line hanswers, finish_singleton line ack halone]
    rfl

/-- The order does not matter when something answers and no cache and write buffer both
do; a node that is not connected to caches must be the only one. -/
theorem orderFree_iff (node : Node) (line : Fin len → Byte) {acks : List (Ack len)}
    (hanswers : Answers node acks) :
    OrderFree node line acks ↔
      (1 < node.initSockets ∧ (∃ ack ∈ acks, ack.data ≠ none) ∧ ¬ Clash (heard acks)) ∨
        (node.initSockets = 1 ∧ node.totalSockets = 1) := by
  rcases Nat.lt_or_eq_of_le (Nat.succ_le_of_lt node.crossbar) with hcaches | halone
  · have hmany : ¬ (node.initSockets = 1 ∧ node.totalSockets = 1) := by omega
    rw [or_iff_left hmany]
    constructor
    · intro hfree
      have hclash : ¬ Clash (heard acks) := fun hclash =>
        not_orderFree_of_clash line hcaches hanswers hclash hfree
      refine ⟨hcaches, ?_, hclash⟩
      by_contra hnone
      exact not_orderFree_of_no_data line hcaches hanswers (by simpa using hnone) hfree
    · rintro ⟨-, hdata, hclash⟩
      exact orderFree_of_not_clash line hcaches hanswers hdata hclash
  · have hfew : ¬ (1 < node.initSockets ∧ (∃ ack ∈ acks, ack.data ≠ none) ∧
        ¬ Clash (heard acks)) := by omega
    rw [or_iff_right hfew, orderFree_alone_iff line halone.symm hanswers]
    exact ⟨fun htotal => ⟨halone.symm, htotal⟩, fun hboth => hboth.2⟩

/-! ### Three nodes -/

/-- The requester of three nodes, connected to one cache. -/
def threeNodes : Node := { totalSockets := 3, initSockets := 2, crossbar := by decide }

/-- A line of two bytes, of which a write buffer would enable the first. -/
def twoBytes (byte : Byte) : LineData 2 :=
  { bytes := fun _ => byte
    lanes := fun i => if i = 0 then ⟨0xFF, Or.inr rfl⟩ else ⟨0x00, Or.inl rfl⟩ }

def fromCache (origNode : ℕ) : Ack 2 :=
  { origNode := origNode, resp := .cache, data := some (twoBytes 0xCA) }

def fromWb (origNode : ℕ) : Ack 2 :=
  { origNode := origNode, resp := .wb, data := some (twoBytes 0xBB) }

def fromDram (origNode : ℕ) : Ack 2 :=
  { origNode := origNode, resp := .dram, data := some (twoBytes 0xDD) }

def withoutData (origNode : ℕ) : Ack 2 :=
  { origNode := origNode, resp := .unknown, data := none }

theorem orderFree_wb_dram :
    OrderFree threeNodes (fun _ => 0) [fromWb 0, withoutData 1, fromDram 2] := by
  have hanswers : Answers threeNodes [fromWb 0, withoutData 1, fromDram 2] := by
    refine ⟨by decide, by simp [Ack.dataOf, fromWb, withoutData, fromDram], fun resp => ?_⟩
    cases resp <;> decide
  refine (orderFree_iff threeNodes _ hanswers).mpr (Or.inl ⟨by decide, ?_, ?_⟩)
  · exact ⟨fromWb 0, by simp, Option.some_ne_none _⟩
  · exact fun hclash => absurd hclash.1 (by decide)

/-- After the write buffer the cache fails an assertion; after the cache and the write
buffer the DRAM overwrites the cache's byte. -/
theorem not_orderFree_wb_cache :
    Answers threeNodes [fromWb 0, fromCache 1, fromDram 2] ∧
      ¬ OrderFree threeNodes (fun _ => 0) [fromWb 0, fromCache 1, fromDram 2] ∧
      Guarded.exec (peqCb threeNodes) (request fun _ => 0)
        [fromWb 0, fromCache 1, fromDram 2] = none ∧
      (Guarded.exec (peqCb threeNodes) (request fun _ => 0)
        [fromCache 1, fromWb 0, fromDram 2]).map (fun entries => entries.line 1) =
          some 0xDD := by
  have hstops : Guarded.exec (peqCb threeNodes) (request fun _ => 0)
      [fromWb 0, fromCache 1, fromDram 2] = none := rfl
  refine ⟨⟨by decide, by simp [Ack.dataOf, fromWb, fromCache, fromDram], fun resp => ?_⟩,
    ?_, hstops, rfl⟩
  · cases resp <;> decide
  · rintro ⟨kind, horders⟩
    obtain ⟨final, hfinal, -⟩ := horders _ (List.Perm.refl _)
    exact absurd (hstops.symm.trans hfinal) (Option.some_ne_none final).symm

end Prazor.Bus.AckMerging
