import Prazor.Caches.Cluster

/-!
# The buffers of the snoop control unit

`scu::b_transport` sends one snoop to every snooped cache but the requester's.
The snoops are numbered densely by `tranid` and kept in `snoop_trans`, which has
one entry less than there are snoop ports.  Each snoop is given a row of `data`
to be answered in, and `data` has as many rows as `snoop_trans` has entries; but
the row is the one numbered by the port.
-/

namespace Prazor.Caches

open Prazor.Bytes

/-- The loop of `snooped_id_from_target`: `count` snooped targets come before
target `i`. -/
def snoopedIdFrom (target : ℕ) : ℕ → ℕ → List Bool → Option ℕ
  | _, _, [] => none
  | i, count, true :: rest =>
      if i = target then some count else snoopedIdFrom target (i + 1) (count + 1) rest
  | i, count, false :: rest => snoopedIdFrom target (i + 1) count rest

/-- `snooped_id_from_target`; `none` where its assertion fails. -/
def snoopedIdFromTarget (snoopedTargets : List Bool) (target : ℕ) : Option ℕ :=
  snoopedIdFrom target 0 0 snoopedTargets

/-- A snoop: the port it is sent to and the row its data pointer is set to. -/
structure SnoopTrans where
  port : ℕ
  dataRow : ℕ
  deriving DecidableEq

/-- The array `snoop_trans`, and the next index into it. -/
structure Issued where
  snoopTrans : ℕ → Option SnoopTrans
  tranid : ℕ

namespace Issued

def empty : Issued := { snoopTrans := fun _ => none, tranid := 0 }

/-- The body of the loop that sends the snoops. -/
def send (requester : ℕ) (issued : Issued) (i : ℕ) : Issued :=
  if i = requester then issued
  else
    { snoopTrans :=
        Function.update issued.snoopTrans issued.tranid (some { port := i, dataRow := i })
      tranid := issued.tranid + 1 }

/-- The snoops, in the order they were sent. -/
def snoops (issued : Issued) : List SnoopTrans :=
  (List.range issued.tranid).filterMap issued.snoopTrans

end Issued

/-- The loop over the `size` snoop ports; `none` when the requester is not
snooped. -/
def sendSnoops (size : ℕ) (snoopedTargets : List Bool) (id : ℕ) : Option Issued :=
  (snoopedIdFromTarget snoopedTargets id).map fun requester =>
    (List.range size).foldl (Issued.send requester) .empty

/-- One snoop is answered: the bytes of a line that is present are copied to the
row of the snoop, unless the line is only to be given up.  `none` when `data`
has no such row. -/
def answerInto (size len : ℕ) (ttype : Transaction) (replies : ℕ → Reply)
    (data : ℕ → Buffer) (trans : SnoopTrans) : Option (ℕ → Buffer) :=
  if ttype = .makeInvalid ∨ (replies trans.port).state = .invalid then some data
  else if trans.dataRow < size - 1 then
    some (Function.update data trans.dataRow
      (memcpy len (replies trans.port).data (data trans.dataRow)))
  else none

/-- The rows after a list of answers. -/
def answersInto (size len : ℕ) (ttype : Transaction) (replies : ℕ → Reply) :
    (ℕ → Buffer) → List SnoopTrans → Option (ℕ → Buffer)
  | data, [] => some data
  | data, snoop :: rest =>
      (answerInto size len ttype replies data snoop).bind fun data =>
        answersInto size len ttype replies data rest

/-- `snoop_trans_idx` after its loop, where some snoop has found the line. -/
def snoopTransIdx (size : ℕ) (replies : ℕ → Reply) (issued : Issued) : Option ℕ :=
  (List.range (size - 1)).find? fun k =>
    (issued.snoopTrans k).any fun trans => (replies trans.port).state ≠ .invalid

/-- The buffers serve a request: there is a snoop for every entry of
`snoop_trans`, each with a row of its own, and in whatever order the caches
answer, the row that is read back holds the bytes of the cache it came from. -/
def SnoopsBuffered (size : ℕ) (snoopedTargets : List Bool) (id : ℕ) : Prop :=
  ∃ issued, sendSnoops size snoopedTargets id = some issued ∧
    issued.tranid = size - 1 ∧
    (∀ k < size - 1, ∃ trans, issued.snoopTrans k = some trans ∧
      trans.dataRow < size - 1) ∧
    (issued.snoops.map SnoopTrans.dataRow).Nodup ∧
    ∀ len ttype replies data answered, ttype ≠ .makeInvalid →
      answered.Perm issued.snoops →
      ∃ data', answersInto size len ttype replies data answered = some data' ∧
        ∀ k trans, snoopTransIdx size replies issued = some k →
          issued.snoopTrans k = some trans →
          ∀ x < len, data' trans.dataRow x = (replies trans.port).data x

/-! ## The two counters -/

/-- The port of the snoop with this index: the requester's is left out. -/
def portOf (requester k : ℕ) : ℕ := if k < requester then k else k + 1

/-- The snoop with this index, while all ports but the requester's are served. -/
def snoopOf (requester k : ℕ) : SnoopTrans :=
  { port := portOf requester k, dataRow := portOf requester k }

/-- After `size` ports there is one snoop less than ports, once the requester's
port has been passed. -/
theorem foldl_send (requester size : ℕ) :
    (List.range size).foldl (Issued.send requester) .empty =
      { snoopTrans := fun k =>
          if k < size - (if requester < size then 1 else 0) then
            some (snoopOf requester k)
          else none
        tranid := size - (if requester < size then 1 else 0) } := by
  induction size with
  | zero => rfl
  | succ size ih =>
      rw [List.range_succ, List.foldl_append, ih, List.foldl_cons, List.foldl_nil]
      rcases Nat.lt_trichotomy size requester with hlt | heq | hgt
      · have hbefore : ¬requester < size := Nat.not_lt.mpr hlt.le
        have hafter : ¬requester < size + 1 := Nat.not_lt.mpr hlt
        rw [Issued.send, if_neg hlt.ne, if_neg hbefore, if_neg hafter]
        congr 1
        funext k
        by_cases hk : k = size
        · subst hk
          simp [snoopOf, portOf, hlt]
        · have hiff : k < size ↔ k < size + 1 := by omega
          simp [Function.update_of_ne hk, hiff]
      · subst heq
        rw [Issued.send, if_pos rfl, if_neg (Nat.lt_irrefl _), if_pos (Nat.lt_succ_self _)]
        rfl
      · have hafter : requester < size + 1 := Nat.lt_succ_of_lt hgt
        have hindex : size - 1 + 1 = size + 1 - 1 := by omega
        rw [Issued.send, if_neg hgt.ne', if_pos hgt, if_pos hafter]
        simp only [hindex, Issued.mk.injEq, and_true]
        funext k
        by_cases hk : k = size - 1
        · subst hk
          have hport : portOf requester (size - 1) = size := by
            rw [portOf, if_neg (by omega)]
            omega
          have hlast : size - 1 < size + 1 - 1 := by omega
          rw [Function.update_self, if_pos hlast, snoopOf, hport]
        · have hiff : k < size - 1 ↔ k < size + 1 - 1 := by omega
          simp [Function.update_of_ne hk, hiff]

theorem portOf_injective (requester : ℕ) : Function.Injective (portOf requester) := by
  intro k l heq
  unfold portOf at heq
  split at heq <;> split at heq <;> omega

theorem snoops_foldl_send (requester size : ℕ) :
    ((List.range size).foldl (Issued.send requester) .empty).snoops =
      (List.range (size - if requester < size then 1 else 0)).map (snoopOf requester) := by
  rw [foldl_send, Issued.snoops, ← List.filterMap_eq_map]
  apply List.filterMap_congr
  intro k hk
  exact if_pos (List.mem_range.mp hk)

theorem nodup_dataRow (requester count : ℕ) :
    (((List.range count).map (snoopOf requester)).map SnoopTrans.dataRow).Nodup := by
  rw [List.map_map]
  exact List.nodup_range.map (portOf_injective requester)

/-! ## The rows -/

/-- Rows that exist and differ each hold, at the end, the bytes of the cache they
were given to. -/
theorem answersInto_of_lt {size : ℕ} (len : ℕ) {ttype : Transaction} {replies : ℕ → Reply}
    (htype : ttype ≠ .makeInvalid) {answered : List SnoopTrans} (data : ℕ → Buffer)
    (hrows : ∀ snoop ∈ answered, snoop.dataRow < size - 1)
    (hnodup : (answered.map SnoopTrans.dataRow).Nodup) :
    ∃ data', answersInto size len ttype replies data answered = some data' ∧
      (∀ row, (∀ snoop ∈ answered, snoop.dataRow ≠ row) → data' row = data row) ∧
      ∀ snoop ∈ answered, (replies snoop.port).state ≠ .invalid →
        ∀ x < len, data' snoop.dataRow x = (replies snoop.port).data x := by
  induction answered generalizing data with
  | nil => exact ⟨data, rfl, fun _ _ => rfl, fun _ hmem => absurd hmem List.not_mem_nil⟩
  | cons snoop rest ih =>
      rw [List.map_cons, List.nodup_cons] at hnodup
      obtain ⟨hfresh, hnodup⟩ := hnodup
      have hothers : ∀ other ∈ rest, other.dataRow ≠ snoop.dataRow :=
        fun other hother heq => hfresh (heq ▸ List.mem_map_of_mem hother)
      have hrest : ∀ other ∈ rest, other.dataRow < size - 1 :=
        fun other hother => hrows other (List.mem_cons_of_mem snoop hother)
      -- the first answer, whether it copies its bytes or not
      obtain ⟨first, hfirst, hframe, hbytes⟩ :
          ∃ first, answerInto size len ttype replies data snoop = some first ∧
            (∀ row, snoop.dataRow ≠ row → first row = data row) ∧
            ((replies snoop.port).state ≠ .invalid →
              ∀ x < len, first snoop.dataRow x = (replies snoop.port).data x) := by
        by_cases hstate : (replies snoop.port).state = .invalid
        · exact ⟨data, if_pos (.inr hstate), fun _ _ => rfl, fun hne => absurd hstate hne⟩
        · have hcopied : ¬(ttype = .makeInvalid ∨ (replies snoop.port).state = .invalid) :=
            not_or.mpr ⟨htype, hstate⟩
          refine ⟨Function.update data snoop.dataRow
            (memcpy len (replies snoop.port).data (data snoop.dataRow)), ?_, ?_, ?_⟩
          · rw [answerInto, if_neg hcopied, if_pos (hrows snoop List.mem_cons_self)]
          · exact fun row hrow => Function.update_of_ne hrow.symm _ _
          · intro _ x hx
            rw [Function.update_self]
            exact if_pos hx
      obtain ⟨data', hdata', hframe', hbytes'⟩ := ih first hrest hnodup
      refine ⟨data', ?_, ?_, ?_⟩
      · rw [answersInto, hfirst, Option.bind_some, hdata']
      · intro row hrow
        rw [hframe' row fun other hother => hrow other (List.mem_cons_of_mem snoop hother)]
        exact hframe row (hrow snoop List.mem_cons_self)
      · intro other hother hstate x hx
        rcases List.mem_cons.mp hother with rfl | hother
        · rw [hframe' _ hothers]
          exact hbytes hstate x hx
        · exact hbytes' other hother hstate x hx

/-- Unless the requester has the last port, the last snoop is given a row past the
end of `data`. -/
theorem last_port_of_snoopsBuffered {size : ℕ} (hsize : 1 ≤ size) {snoopedTargets : List Bool}
    {id : ℕ} (hbuffered : SnoopsBuffered size snoopedTargets id) :
    snoopedIdFromTarget snoopedTargets id = some (size - 1) := by
  obtain ⟨issued, hissued, htranid, hrows, -, -⟩ := hbuffered
  obtain ⟨requester, hrequester, rfl⟩ := Option.map_eq_some_iff.mp hissued
  rw [foldl_send] at htranid hrows
  -- one port is passed over, so the requester's is among them
  have hlt : requester < size := by
    by_contra hge
    simp only [if_neg hge] at htranid
    omega
  simp only [if_pos hlt] at hrows
  rw [hrequester]
  by_contra hne
  have hsmall : requester < size - 1 := by
    have : requester ≠ size - 1 := fun heq => hne (congrArg some heq)
    omega
  -- the last snoop goes to the last port, whose row does not exist
  have hlast : size - 2 < size - 1 := by omega
  obtain ⟨snoop, hsnoop, hrow⟩ := hrows (size - 2) hlast
  rw [if_pos hlast, Option.some.injEq] at hsnoop
  have hport : portOf requester (size - 2) = size - 1 := by
    rw [portOf, if_neg (by omega)]
    omega
  rw [← hsnoop] at hrow
  exact absurd (hport ▸ hrow) (Nat.lt_irrefl _)

/-- A requester with the last port: the snoop of index `k` goes to port `k`. -/
theorem snoopsBuffered_of_last_port {size : ℕ} (hsize : 1 ≤ size)
    {snoopedTargets : List Bool} {id : ℕ}
    (hrequester : snoopedIdFromTarget snoopedTargets id = some (size - 1)) :
    SnoopsBuffered size snoopedTargets id := by
  have hlt : size - 1 < size := by omega
  have hsnoops := snoops_foldl_send (size - 1) size
  rw [if_pos hlt] at hsnoops
  have hrow : ∀ k < size - 1, (snoopOf (size - 1) k).dataRow < size - 1 := by
    intro k hk
    rw [snoopOf, portOf, if_pos hk]
    exact hk
  have htrans : ∀ k < size - 1,
      ((List.range size).foldl (Issued.send (size - 1)) .empty).snoopTrans k =
        some (snoopOf (size - 1) k) := by
    intro k hk
    rw [foldl_send, if_pos hlt]
    exact if_pos hk
  refine ⟨_, Option.map_eq_some_iff.mpr ⟨_, hrequester, rfl⟩, ?_, ?_, ?_, ?_⟩
  · rw [foldl_send, if_pos hlt]
  · exact fun k hk => ⟨_, htrans k hk, hrow k hk⟩
  · rw [hsnoops]
    exact nodup_dataRow _ _
  · intro len ttype replies data answered htype hperm
    rw [hsnoops] at hperm
    have hmem : ∀ snoop ∈ answered, ∃ k < size - 1, snoopOf (size - 1) k = snoop := by
      intro snoop hsnoop
      simpa using hperm.mem_iff.mp hsnoop
    obtain ⟨data', hdata', -, hbytes⟩ := answersInto_of_lt len htype data
      (fun snoop hsnoop => by
        obtain ⟨k, hk, rfl⟩ := hmem snoop hsnoop
        exact hrow k hk)
      ((hperm.map SnoopTrans.dataRow).nodup_iff.mpr (nodup_dataRow _ _))
    refine ⟨data', hdata', ?_⟩
    intro k snoop hchosen hsnoop x hx
    have hk : k < size - 1 := List.mem_range.mp (List.mem_of_find?_eq_some hchosen)
    have hstate := List.find?_some hchosen
    rw [hsnoop] at hstate
    rw [htrans k hk, Option.some.injEq] at hsnoop
    subst hsnoop
    exact hbytes _ (hperm.mem_iff.mpr (List.mem_map_of_mem (List.mem_range.mpr hk)))
      (by simpa using hstate) x hx

theorem snoopsBuffered_iff {size : ℕ} (hsize : 1 ≤ size) {snoopedTargets : List Bool}
    {id : ℕ} :
    SnoopsBuffered size snoopedTargets id ↔
      snoopedIdFromTarget snoopedTargets id = some (size - 1) :=
  ⟨last_port_of_snoopsBuffered hsize, snoopsBuffered_of_last_port hsize⟩

/-- The buffers serve a request of the last snooped cache, and of no other. -/
theorem snoopsBuffered_iff_last_port (size : ℕ) (hsize : 1 ≤ size)
    (snoopedTargets : List Bool) (id : ℕ) :
    SnoopsBuffered size snoopedTargets id ↔
      snoopedIdFromTarget snoopedTargets id = some (size - 1) :=
  snoopsBuffered_iff hsize

/-- The second of two snooped caches asks. -/
theorem snoopsBuffered_iff_last_port_second :
    SnoopsBuffered 2 [true, true] 1 :=
  (snoopsBuffered_iff_last_port 2 (by decide) [true, true] 1).mpr rfl

/-- The first of two snooped caches asks: its only snoop goes to the second port,
whose row is past the end of `data`. -/
theorem not_snoopsBuffered_first :
    ¬∀ size, 1 ≤ size → ∀ snoopedTargets id, id < snoopedTargets.length →
      snoopedTargets.count true = size → SnoopsBuffered size snoopedTargets id := by
  intro hall
  obtain ⟨issued, hissued, -, hrows, -⟩ := hall 2 (by decide) [true, true] 0 (by decide) rfl
  obtain rfl := Option.some.inj hissued
  obtain ⟨snoop, hsnoop, hrow⟩ := hrows 0 (by decide)
  obtain rfl : { port := 1, dataRow := 1 } = snoop := Option.some.inj hsnoop
  exact absurd hrow (by decide)

/-! ## The ports of a cluster -/

/-- The snooped targets, in the order of their ports. -/
theorem snoopedIdFrom_eq_some {target i count r : ℕ} (snoopedTargets : List Bool) :
    snoopedIdFrom target i count snoopedTargets = some r ↔
      count ≤ r ∧ ((List.range' i snoopedTargets.length).filter
        fun b => snoopedTargets.getD (b - i) false)[r - count]? = some target := by
  induction snoopedTargets generalizing i count with
  | nil => simp [snoopedIdFrom]
  | cons flag rest ih =>
      have hshift : ((List.range' (i + 1) rest.length).filter
            fun b => (flag :: rest).getD (b - i) false) =
          (List.range' (i + 1) rest.length).filter
            fun b => rest.getD (b - (i + 1)) false := by
        apply List.filter_congr
        intro b hb
        have hsucc : b - i = b - (i + 1) + 1 := by
          have := (List.mem_range'_1.mp hb).1
          omega
        rw [hsucc, List.getD_cons_succ]
      rw [List.length_cons, List.range'_succ, List.filter_cons, hshift, Nat.sub_self,
        List.getD_cons_zero]
      cases flag with
      | false => exact ih
      | true =>
          rw [snoopedIdFrom, if_pos rfl]
          by_cases htarget : i = target
          · subst htarget
            rw [if_pos rfl, Option.some.injEq]
            constructor
            · rintro rfl
              exact ⟨le_rfl, by rw [Nat.sub_self]; rfl⟩
            · rintro ⟨hle, hget⟩
              rcases Nat.eq_or_lt_of_le hle with heq | hlt
              · exact heq
              · -- the later targets have greater numbers
                have hindex : r - count = r - count - 1 + 1 := by omega
                rw [hindex, List.getElem?_cons_succ] at hget
                have hmem := List.mem_of_getElem? hget
                have hge := (List.mem_range'_1.mp (List.mem_filter.mp hmem).1).1
                omega
          · rw [if_neg htarget, ih]
            constructor
            · rintro ⟨hle, hget⟩
              have hindex : r - count = r - (count + 1) + 1 := by omega
              rw [hindex, List.getElem?_cons_succ]
              exact ⟨by omega, hget⟩
            · rintro ⟨hle, hget⟩
              rcases Nat.eq_or_lt_of_le hle with rfl | hlt
              · rw [Nat.sub_self] at hget
                exact absurd (Option.some.inj hget) htarget
              · have hindex : r - count = r - (count + 1) + 1 := by omega
                rw [hindex, List.getElem?_cons_succ] at hget
                exact ⟨hlt, hget⟩

/-- A snooped id is the place of the target among the ports of the cluster. -/
theorem Cluster.snoopedIdFromTarget_eq_some (cl : Cluster) {b r : ℕ} :
    snoopedIdFromTarget cl.snoopedTargets b = some r ↔ cl.ports[r]? = some b := by
  rw [snoopedIdFromTarget, snoopedIdFrom_eq_some, Cluster.ports, List.range_eq_range']
  simp only [Nat.zero_le, true_and, Nat.sub_zero]
  rfl

/-- The buffers serve the cache of the last port, and no other cache of the
cluster. -/
theorem Cluster.snoopsBuffered_iff_getLast (cl : Cluster) (b : ℕ) (hports : cl.ports ≠ []) :
    SnoopsBuffered cl.ports.length cl.snoopedTargets b ↔ cl.ports.getLast? = some b := by
  rw [snoopsBuffered_iff (List.length_pos_iff.mpr hports),
    cl.snoopedIdFromTarget_eq_some, List.getLast?_eq_getElem?]

end Prazor.Caches
