import Prazor.Core.PointerChains
import Prazor.Core.Payload

/-!
# The matchpoint hash table

`MpHash` keeps the matchpoints of a debugger in chains of entries, by type and address.  Over
every run it answers as a map from type and address to instruction does, whatever pointers `new`
returns.  It never follows a pointer to an entry that was deleted, and exactly the entries of
the map are allocated.

`none` is an access through a pointer that is not allocated, or a loop that makes more turns
than the bound.
-/

namespace Prazor.Tenos

/-- `enum MpType` -/
inductive MpType where
  | bpMemory
  | bpHardware
  | wpWrite
  | wpRead
  | wpAccess
  deriving DecidableEq, Repr

/-- An entry; NULL is `none`. -/
structure MpEntry where
  type : MpType
  addr : BitVec 32
  instr : BitVec 32
  next : Option ℕ
  deriving DecidableEq

/-- The table, and the entries that are allocated. -/
structure MpHash where
  size : ℕ
  size_pos : 0 < size
  hashTab : ℕ → Option ℕ
  heap : ℕ → Option MpEntry

namespace MpHash

/-- The constructor. -/
def new (size : ℕ) (hsize : 0 < size) : MpHash := ⟨size, hsize, fun _ => none, fun _ => none⟩

/-- `addr % size` -/
def slot (table : MpHash) (addr : BitVec 32) : ℕ := addr.toNat % table.size

/-- The loop over a chain: the entry that matches, with the pointer to it and the one before. -/
def searchLoop (heap : ℕ → Option MpEntry) (type : MpType) (addr : BitVec 32) :
    (bound : ℕ) → (prev curr : Option ℕ) → Option (Option (Option ℕ × ℕ × MpEntry))
  | 0, _, _ => none
  | _ + 1, _, none => some none
  | bound + 1, prev, some curr =>
      (heap curr).bind fun entry =>
        if type = entry.type ∧ addr = entry.addr then some (some (prev, curr, entry))
        else searchLoop heap type addr bound (some curr) entry.next

/-- The loop over the chain of an address. -/
def search (table : MpHash) (bound : ℕ) (type : MpType) (addr : BitVec 32) :
    Option (Option (Option ℕ × ℕ × MpEntry)) :=
  searchLoop table.heap type addr bound none (table.hashTab (table.slot addr))

/-- `add`, with the pointer that `new` returns. -/
def add (table : MpHash) (bound pointer : ℕ) (type : MpType) (addr instr : BitVec 32) :
    Option MpHash :=
  (table.search bound type addr).map fun
    | some _ => table
    | none =>
        { table with
          hashTab := Function.update table.hashTab (table.slot addr) (some pointer)
          heap := Function.update table.heap pointer
            (some ⟨type, addr, instr, table.hashTab (table.slot addr)⟩) }

/-- `lookup`: the entry that is found. -/
def lookup (table : MpHash) (bound : ℕ) (type : MpType) (addr : BitVec 32) :
    Option (Option MpEntry) :=
  (table.search bound type addr).map fun found => found.map fun (_, _, entry) => entry

/-- `remove`: the table, and the instruction if an entry was found. -/
def remove (table : MpHash) (bound : ℕ) (type : MpType) (addr : BitVec 32) :
    Option (MpHash × Option (BitVec 32)) :=
  (table.search bound type addr).bind fun
    | none => some (table, none)
    | some (none, curr, entry) =>
        some ({ table with
          hashTab := Function.update table.hashTab (table.slot addr) entry.next
          heap := Function.update table.heap curr none }, some entry.instr)
    | some (some prev, curr, entry) =>
        (table.heap prev).map fun before =>
          ({ table with
            heap := Function.update
              (Function.update table.heap prev (some { before with next := entry.next }))
              curr none }, some entry.instr)

/-- A call; that of `add` with the pointer that `new` returns. -/
inductive Call where
  | add (pointer : ℕ) (type : MpType) (addr instr : BitVec 32)
  | lookup (type : MpType) (addr : BitVec 32)
  | remove (type : MpType) (addr : BitVec 32)

/-- A call, and the instruction that it gives. -/
def step (bound : ℕ) (table : MpHash) : Call → Option (MpHash × Option (BitVec 32))
  | .add pointer type addr instr => (table.add bound pointer type addr instr).map (·, none)
  | .lookup type addr =>
      (table.lookup bound type addr).map fun found => (table, found.map MpEntry.instr)
  | .remove type addr => table.remove bound type addr

/-- A run of calls, and what they give. -/
def run (bound : ℕ) (table : MpHash) :
    List Call → Option (MpHash × List (Option (BitVec 32)))
  | [] => some (table, [])
  | call :: calls =>
      (table.step bound call).bind fun (table, given) =>
        (run bound table calls).map fun (table, rest) => (table, given :: rest)

/-- `new` returns no pointer that is in use. -/
def Call.Free (table : MpHash) : Call → Prop
  | .add pointer _ _ _ => table.heap pointer = none
  | _ => True

/-- Nor does it in any call of a run. -/
def Fresh (bound : ℕ) : MpHash → List Call → Prop
  | _, [] => True
  | table, call :: calls =>
      call.Free table ∧
        match table.step bound call with
        | none => True
        | some (table, _) => Fresh bound table calls

end MpHash

/-! ## What the table is for -/

/-- The matchpoints: an instruction for some of the types and addresses. -/
abbrev Matchpoints := MpType × BitVec 32 → Option (BitVec 32)

namespace Matchpoints

/-- What a call does to the matchpoints, and what it gives.  An address that has a matchpoint of
the type keeps its instruction. -/
def step (points : Matchpoints) : MpHash.Call → Matchpoints × Option (BitVec 32)
  | .add _ type addr instr =>
      (Function.update points (type, addr) (some ((points (type, addr)).getD instr)), none)
  | .lookup type addr => (points, points (type, addr))
  | .remove type addr => (Function.update points (type, addr) none, points (type, addr))

/-- The matchpoints after a run, and what the calls give. -/
def run (points : Matchpoints) :
    List MpHash.Call → Matchpoints × List (Option (BitVec 32))
  | [] => (points, [])
  | call :: calls =>
      ((run (points.step call).1 calls).1,
        (points.step call).2 :: (run (points.step call).1 calls).2)

end Matchpoints

/-! ## The entries and the chains -/

/-- The key and the instruction of an entry. -/
def MpEntry.content (entry : MpEntry) : (MpType × BitVec 32) × BitVec 32 :=
  ((entry.type, entry.addr), entry.instr)

/-- The entries are those of the map, one for each key. -/
structure Stores (contents : ℕ → Option ((MpType × BitVec 32) × BitVec 32))
    (points : Matchpoints) : Prop where
  stored : ∀ p key instr, contents p = some (key, instr) → points key = some instr
  entry : ∀ key instr, points key = some instr → ∃ p, contents p = some (key, instr)
  unique : ∀ p q key instr instr', contents p = some (key, instr) →
    contents q = some (key, instr') → p = q

namespace Stores

variable {contents : ℕ → Option ((MpType × BitVec 32) × BitVec 32)} {points : Matchpoints}
  {key : MpType × BitVec 32} {instr : BitVec 32} {p : ℕ}

theorem insert (hstores : Stores contents points) (hfresh : contents p = none)
    (hnone : points key = none) :
    Stores (Function.update contents p (some (key, instr)))
      (Function.update points key (some instr)) := by
  have hother : ∀ q key' instr', contents q = some (key', instr') → q ≠ p ∧ key' ≠ key := by
    intro q key' instr' hq
    constructor
    · rintro rfl
      rw [hfresh] at hq
      cases hq
    · rintro rfl
      rw [hstores.stored q _ _ hq] at hnone
      cases hnone
  have hcases : ∀ q key' instr',
      Function.update contents p (some (key, instr)) q = some (key', instr') →
        q = p ∧ key' = key ∧ instr' = instr ∨ contents q = some (key', instr') := by
    intro q key' instr' hq
    by_cases heq : q = p
    · rw [heq, Function.update_self] at hq
      cases hq
      exact .inl ⟨heq, rfl, rfl⟩
    · rw [Function.update_of_ne heq] at hq
      exact .inr hq
  constructor
  · intro q key' instr' hq
    rcases hcases q key' instr' hq with ⟨rfl, rfl, rfl⟩ | hold
    · exact Function.update_self ..
    · rw [Function.update_of_ne (hother q key' instr' hold).2]
      exact hstores.stored q key' instr' hold
  · intro key' instr' hkey
    by_cases heq : key' = key
    · rw [heq, Function.update_self] at hkey
      cases hkey
      exact ⟨p, by rw [Function.update_self, heq]⟩
    · rw [Function.update_of_ne heq] at hkey
      obtain ⟨q, hq⟩ := hstores.entry key' instr' hkey
      exact ⟨q, by rw [Function.update_of_ne (hother q key' instr' hq).1, hq]⟩
  · intro q r key' instr' instr'' hq hr
    rcases hcases q key' instr' hq with ⟨rfl, rfl, -⟩ | hqold
    · rcases hcases r key' instr'' hr with ⟨rfl, -⟩ | hrold
      · rfl
      · exact absurd rfl (hother r key' instr'' hrold).2
    · rcases hcases r key' instr'' hr with ⟨-, rfl, -⟩ | hrold
      · exact absurd rfl (hother q key' instr' hqold).2
      · exact hstores.unique q r key' instr' instr'' hqold hrold

theorem erase (hstores : Stores contents points) (hp : contents p = some (key, instr)) :
    Stores (Function.update contents p none) (Function.update points key none) := by
  have hcases : ∀ q key' instr', Function.update contents p none q = some (key', instr') →
      q ≠ p ∧ contents q = some (key', instr') := by
    intro q key' instr' hq
    by_cases heq : q = p
    · rw [heq, Function.update_self] at hq
      cases hq
    · rw [Function.update_of_ne heq] at hq
      exact ⟨heq, hq⟩
  constructor
  · intro q key' instr' hq
    obtain ⟨hne, hq⟩ := hcases q key' instr' hq
    rw [Function.update_of_ne]
    · exact hstores.stored q key' instr' hq
    · rintro rfl
      exact hne (hstores.unique q p _ _ _ hq hp)
  · intro key' instr' hkey
    by_cases heq : key' = key
    · rw [heq, Function.update_self] at hkey
      cases hkey
    · rw [Function.update_of_ne heq] at hkey
      obtain ⟨q, hq⟩ := hstores.entry key' instr' hkey
      refine ⟨q, ?_⟩
      rw [Function.update_of_ne, hq]
      rintro rfl
      rw [hp] at hq
      cases hq
      exact heq rfl
  · intro q r key' instr' instr'' hq hr
    exact hstores.unique q r key' instr' instr'' (hcases q _ _ hq).2 (hcases r _ _ hr).2

end Stores

namespace MpHash

/-- The pointer in each entry. -/
def links (table : MpHash) : Links ℕ := fun p => (table.heap p).map MpEntry.next

def contents (table : MpHash) (p : ℕ) : Option ((MpType × BitVec 32) × BitVec 32) :=
  (table.heap p).map MpEntry.content

/-- The chain of each slot has the entries whose address belongs there, and at most `n`. -/
def Chained (table : MpHash) (n : ℕ) : Prop :=
  ∀ h, ∃ ps, Links.Chain table.links (table.hashTab h) ps ∧ ps.length ≤ n ∧
    ∀ p, p ∈ ps ↔ ∃ c, table.contents p = some c ∧ table.slot c.1.2 = h

variable {table : MpHash} {type : MpType} {addr : BitVec 32} {bound n : ℕ}

/-- Where in a chain the loop stops. -/
def FoundAt (ps : List ℕ) (before prev : Option ℕ) (p : ℕ) : Prop :=
  (prev = before ∧ ∃ after, ps = p :: after) ∨
    ∃ first q after, prev = some q ∧ ps = first ++ q :: p :: after

theorem searchLoop_spec {prev curr : Option ℕ} {ps : List ℕ}
    (hchain : Links.Chain table.links curr ps) (hbound : ps.length < bound) :
    (searchLoop table.heap type addr bound prev curr = some none ∧
      ∀ p ∈ ps, ∀ c, table.contents p = some c → c.1 ≠ (type, addr)) ∨
    ∃ prev' p entry,
      searchLoop table.heap type addr bound prev curr = some (some (prev', p, entry)) ∧
        table.heap p = some entry ∧ (entry.type, entry.addr) = (type, addr) ∧
        FoundAt ps prev prev' p := by
  induction ps generalizing bound prev curr with
  | nil =>
      obtain ⟨bound, rfl⟩ := Nat.exists_eq_succ_of_ne_zero (Nat.ne_zero_of_lt hbound)
      rw [show curr = none from hchain]
      exact .inl ⟨rfl, fun p hp => absurd hp List.not_mem_nil⟩
  | cons p ps ih =>
      obtain ⟨bound, rfl⟩ := Nat.exists_eq_succ_of_ne_zero (Nat.ne_zero_of_lt hbound)
      obtain ⟨rfl, next, hnext, hchain⟩ := hchain
      obtain ⟨entry, hentry, rfl⟩ := Option.map_eq_some_iff.mp hnext
      rw [searchLoop, hentry, Option.bind_some]
      split
      case isTrue hmatch =>
        exact .inr ⟨prev, p, entry, rfl, hentry, by rw [hmatch.1, hmatch.2], .inl ⟨rfl, ps, rfl⟩⟩
      case isFalse hother =>
        have hfirst : (entry.type, entry.addr) ≠ (type, addr) := by
          intro heq
          cases heq
          exact hother ⟨rfl, rfl⟩
        have hrest := @ih bound (some p) entry.next hchain (Nat.lt_of_succ_lt_succ hbound)
        rcases hrest with ⟨hnone, hall⟩ | ⟨prev', q, found, hsome, hq, hkey, hat⟩
        · refine .inl ⟨hnone, ?_⟩
          intro q hq c hc
          rcases List.mem_cons.mp hq with rfl | hq
          · rw [contents, hentry] at hc
            cases hc
            exact hfirst
          · exact hall q hq c hc
        · refine .inr ⟨prev', q, found, hsome, hq, hkey, .inr ?_⟩
          rcases hat with ⟨rfl, after, rfl⟩ | ⟨first, r, after, hprev, rfl⟩
          · exact ⟨[], p, after, rfl, rfl⟩
          · exact ⟨p :: first, r, after, hprev, rfl⟩

/-- The loop finds what the map has. -/
theorem search_spec {points : Matchpoints} (hchained : table.Chained n)
    (hstores : Stores table.contents points) (hbound : n < bound) :
    (table.search bound type addr = some none ∧ points (type, addr) = none) ∨
    ∃ prev p entry ps, table.search bound type addr = some (some (prev, p, entry)) ∧
      table.heap p = some entry ∧ table.contents p = some ((type, addr), entry.instr) ∧
      Links.Chain table.links (table.hashTab (table.slot addr)) ps ∧ ps.length ≤ n ∧
      (∀ q, q ∈ ps ↔ ∃ c, table.contents q = some c ∧ table.slot c.1.2 = table.slot addr) ∧
      FoundAt ps none prev p := by
  obtain ⟨ps, hchain, hshort, hmem⟩ := hchained (table.slot addr)
  rcases @searchLoop_spec table type addr bound none _ ps hchain (by omega) with
    ⟨hnone, hall⟩ | ⟨prev, p, entry, hsome, hentry, hkey, hat⟩
  · refine .inl ⟨hnone, ?_⟩
    rcases hpoint : points (type, addr) with - | instr
    · rfl
    · obtain ⟨p, hp⟩ := hstores.entry _ _ hpoint
      exact absurd rfl (hall p ((hmem p).mpr ⟨_, hp, rfl⟩) _ hp)
  · refine .inr ⟨prev, p, entry, ps, hsome, hentry, ?_, hchain, hshort, hmem, hat⟩
    rw [contents, hentry, Option.map_some, MpEntry.content, hkey]

theorem map_update {B : Type*} (f : MpEntry → B) (heap : ℕ → Option MpEntry) (p : ℕ)
    (entry : Option MpEntry) :
    (fun q => (Function.update heap p entry q).map f) =
      Function.update (fun q => (heap q).map f) p (entry.map f) := by
  funext q
  by_cases heq : q = p
  · rw [heq, Function.update_self, Function.update_self]
  · rw [Function.update_of_ne heq, Function.update_of_ne heq]

theorem contents_update (table : MpHash) (p : ℕ) (entry : Option MpEntry) :
    (fun q => (Function.update table.heap p entry q).map MpEntry.content) =
      Function.update table.contents p (entry.map MpEntry.content) :=
  map_update MpEntry.content table.heap p entry

theorem links_update (table : MpHash) (p : ℕ) (entry : Option MpEntry) :
    (fun q => (Function.update table.heap p entry q).map MpEntry.next) =
      Function.update table.links p (entry.map MpEntry.next) :=
  map_update MpEntry.next table.heap p entry

/-- The allocated nodes are those with a content. -/
theorem contents_eq_none {p : ℕ} : table.contents p = none ↔ table.heap p = none :=
  Option.map_eq_none_iff

theorem ne_none_of_chain {start : Option ℕ} {ps : List ℕ} {p : ℕ}
    (hchain : Links.Chain table.links start ps) (hp : p ∈ ps) : table.heap p ≠ none := by
  obtain ⟨next, hnext⟩ := hchain.allocated hp
  intro hnone
  rw [links, hnone] at hnext
  cases hnext

/-- A new entry goes to the front of the chain of its slot. -/
theorem Chained.push (hchained : table.Chained n) {entry : MpEntry} {p : ℕ}
    (hfresh : table.heap p = none)
    (hnext : entry.next = table.hashTab (table.slot entry.addr)) :
    ({ table with
      hashTab := Function.update table.hashTab (table.slot entry.addr) (some p)
      heap := Function.update table.heap p (some entry) } : MpHash).Chained (n + 1) := by
  intro h
  obtain ⟨ps, hchain, hshort, hmem⟩ := hchained h
  have hnew : p ∉ ps := fun hp => ne_none_of_chain hchain hp hfresh
  have hmem' : ∀ q, q ∈ (if h = table.slot entry.addr then p :: ps else ps) ↔
      ∃ c, Function.update table.contents p (some entry.content) q = some c ∧
        table.slot c.1.2 = h := by
    intro q
    by_cases hq : q = p
    · rw [hq, Function.update_self]
      split
      case isTrue heq =>
        exact iff_of_true List.mem_cons_self ⟨_, rfl, heq.symm⟩
      case isFalse hne =>
        refine iff_of_false hnew ?_
        rintro ⟨c, hc, hslot⟩
        cases hc
        exact hne hslot.symm
    · rw [Function.update_of_ne hq, ← hmem q]
      split
      case isTrue heq => rw [List.mem_cons, or_iff_right hq]
      case isFalse hne => rfl
  refine ⟨if h = table.slot entry.addr then p :: ps else ps, ?_, ?_, ?_⟩
  · show Links.Chain (fun q => (Function.update table.heap p (some entry) q).map MpEntry.next)
      (Function.update table.hashTab (table.slot entry.addr) (some p) h) _
    rw [links_update, Option.map_some]
    split
    case isTrue heq =>
      rw [heq] at hchain
      rw [heq, Function.update_self, hnext]
      exact hchain.push hnew
    case isFalse hne =>
      rw [Function.update_of_ne hne]
      apply hchain.congr
      intro q hq
      exact Function.update_of_ne (ne_of_mem_of_not_mem hq hnew) ..
  · split
    case isTrue => exact Nat.succ_le_succ hshort
    case isFalse => exact Nat.le_succ_of_le hshort
  · intro q
    have hcontents : (Function.update table.heap p (some entry) q).map MpEntry.content =
        Function.update table.contents p (some entry.content) q :=
      congrFun (contents_update table p (some entry)) q
    rw [hmem' q, ← hcontents]
    rfl

/-- The entry that is found leaves the chain of its slot, whether it is the first or not. -/
theorem Chained.unlink (hchained : table.Chained n) {hashTab : ℕ → Option ℕ}
    {heap : ℕ → Option MpEntry} {p h : ℕ} {c : (MpType × BitVec 32) × BitVec 32}
    (hc : table.contents p = some c) (hslot : table.slot c.1.2 = h)
    (hcontents : ∀ q, (heap q).map MpEntry.content = Function.update table.contents p none q)
    (hother : ∀ h' ≠ h, hashTab h' = table.hashTab h')
    (hlinks : ∀ q c', table.contents q = some c' → table.slot c'.1.2 ≠ h →
      (heap q).map MpEntry.next = table.links q)
    {ps : List ℕ} (hchain : Links.Chain (fun q => (heap q).map MpEntry.next) (hashTab h) ps)
    (hshort : ps.length ≤ n)
    (hmem : ∀ q, q ∈ ps ↔ q ≠ p ∧ ∃ c', table.contents q = some c' ∧ table.slot c'.1.2 = h) :
    ({ table with hashTab := hashTab, heap := heap } : MpHash).Chained n := by
  have hiff : ∀ q h', (∃ c', (heap q).map MpEntry.content = some c' ∧ table.slot c'.1.2 = h') ↔
      q ≠ p ∧ ∃ c', table.contents q = some c' ∧ table.slot c'.1.2 = h' := by
    intro q h'
    rw [hcontents q]
    by_cases hq : q = p
    · rw [hq, Function.update_self]
      exact iff_of_false (fun ⟨_, hnone, _⟩ => by cases hnone) fun hne => hne.1 rfl
    · rw [Function.update_of_ne hq]
      exact ⟨fun hsome => ⟨hq, hsome⟩, fun hsome => hsome.2⟩
  intro h'
  by_cases hh : h' = h
  · subst hh
    exact ⟨ps, hchain, hshort, fun q => (hmem q).trans (hiff q h').symm⟩
  · obtain ⟨qs, hchain', hshort', hmem'⟩ := hchained h'
    have hp : p ∉ qs := by
      intro hp
      obtain ⟨c', hc', hslot'⟩ := (hmem' p).mp hp
      rw [hc] at hc'
      cases hc'
      exact hh (hslot'.symm.trans hslot)
    refine ⟨qs, ?_, hshort', ?_⟩
    · show Links.Chain (fun q => (heap q).map MpEntry.next) (hashTab h') qs
      rw [hother h' hh]
      apply hchain'.congr
      intro q hq
      obtain ⟨c', hc', hslot'⟩ := (hmem' q).mp hq
      exact hlinks q c' hc' (by rw [hslot']; exact hh)
    · intro q
      rw [hmem' q]
      refine Iff.trans ?_ (hiff q h').symm
      refine ⟨fun hsome => ⟨?_, hsome⟩, fun hsome => hsome.2⟩
      exact ne_of_mem_of_not_mem ((hmem' q).mpr hsome) hp

/-- The table holds the matchpoints, with at most `n` in a chain. -/
structure Holds (table : MpHash) (points : Matchpoints) (n : ℕ) : Prop where
  chained : table.Chained n
  stores : Stores table.contents points

theorem Holds.mono {points : Matchpoints} (hholds : table.Holds points n) :
    table.Holds points (n + 1) where
  chained h := by
    obtain ⟨ps, hchain, hshort, hmem⟩ := hholds.chained h
    exact ⟨ps, hchain, Nat.le_succ_of_le hshort, hmem⟩
  stores := hholds.stores

theorem new_holds (size : ℕ) (hsize : 0 < size) :
    (new size hsize).Holds (fun _ => none) 0 where
  chained _ := ⟨[], rfl, Nat.le_refl 0, fun _ => iff_of_false List.not_mem_nil
    fun ⟨_, hc, _⟩ => Option.some_ne_none _ hc.symm⟩
  stores :=
    { stored := fun _ _ _ hp => absurd hp.symm (Option.some_ne_none _)
      entry := fun _ _ hkey => absurd hkey.symm (Option.some_ne_none _)
      unique := fun _ _ _ _ _ hp => absurd hp.symm (Option.some_ne_none _) }

theorem add_holds {points : Matchpoints} (hholds : table.Holds points n) (hbound : n < bound)
    {p : ℕ} (hfresh : table.heap p = none) (type : MpType) (addr instr : BitVec 32) :
    ∃ table', table.add bound p type addr instr = some table' ∧
      table'.Holds (Function.update points (type, addr)
        (some ((points (type, addr)).getD instr))) (n + 1) := by
  rcases @search_spec table type addr bound n points hholds.chained hholds.stores hbound with
    ⟨hsearch, hnone⟩ | ⟨prev, q, entry, ps, hsearch, -, hq, -⟩
  · have hchained := @Chained.push table n hholds.chained
      ⟨type, addr, instr, table.hashTab (table.slot addr)⟩ p hfresh rfl
    have hstores := @Stores.insert _ _ _ instr _ hholds.stores (contents_eq_none.mpr hfresh) hnone
    rw [add, hsearch, hnone]
    refine ⟨_, rfl, hchained, ?_⟩
    show Stores (fun q => (Function.update table.heap p _ q).map MpEntry.content) _
    rw [contents_update]
    exact hstores
  · have hpoint := hholds.stores.stored q _ _ hq
    rw [add, hsearch, hpoint, Option.getD_some, ← hpoint, Function.update_eq_self]
    exact ⟨table, rfl, hholds.mono⟩

theorem lookup_eq {points : Matchpoints} (hholds : table.Holds points n) (hbound : n < bound)
    (type : MpType) (addr : BitVec 32) :
    ∃ found, table.lookup bound type addr = some found ∧
      found.map MpEntry.instr = points (type, addr) := by
  rcases @search_spec table type addr bound n points hholds.chained hholds.stores hbound with
    ⟨hsearch, hnone⟩ | ⟨prev, q, entry, ps, hsearch, -, hq, -⟩
  · rw [lookup, hsearch, hnone]
    exact ⟨none, rfl, rfl⟩
  · rw [lookup, hsearch, hholds.stores.stored q _ _ hq]
    exact ⟨some entry, rfl, rfl⟩

theorem remove_holds {points : Matchpoints} (hholds : table.Holds points n) (hbound : n < bound)
    (type : MpType) (addr : BitVec 32) :
    ∃ table', table.remove bound type addr = some (table', points (type, addr)) ∧
      table'.Holds (Function.update points (type, addr) none) n := by
  rcases @search_spec table type addr bound n points hholds.chained hholds.stores hbound with
    ⟨hsearch, hnone⟩ | ⟨prev, p, entry, ps, hsearch, hentry, hp, hchain, hshort, hmem, hat⟩
  · rw [remove, hsearch, hnone, ← hnone, Function.update_eq_self, hnone]
    exact ⟨table, rfl, hholds⟩
  · have hnext : table.links p = some entry.next := by rw [links, hentry, Option.map_some]
    have hstores := hholds.stores.erase hp
    have hnodup := hchain.nodup
    rw [remove, hsearch, hholds.stores.stored p _ _ hp]
    rcases hat with ⟨rfl, after, rfl⟩ | ⟨first, q, after, rfl, rfl⟩
    · -- the first of its chain
      refine ⟨_, rfl, ?_, ?_⟩
      · apply hholds.chained.unlink hp rfl (congrFun (contents_update table p none))
          (fun h hne => Function.update_of_ne hne ..)
        · intro r c hr hslot
          rw [congrFun (links_update table p none) r]
          apply Function.update_of_ne
          rintro rfl
          rw [hp] at hr
          cases hr
          exact hslot rfl
        · rw [Function.update_self, links_update]
          exact hchain.pop hnext
        · exact Nat.le_of_succ_le hshort
        · intro r
          rw [← hmem r, List.mem_cons]
          rw [List.nodup_cons] at hnodup
          refine ⟨fun hr => ⟨ne_of_mem_of_not_mem hr hnodup.1, .inr hr⟩, ?_⟩
          rintro ⟨hne, rfl | hr⟩
          · exact absurd rfl hne
          · exact hr
      · show Stores (fun q => (Function.update table.heap p none q).map MpEntry.content) _
        rw [contents_update]
        exact hstores
    · -- behind `q`, which now leads to the entry after it
      have hq : q ∈ first ++ q :: p :: after := List.mem_append_right first List.mem_cons_self
      obtain ⟨before, hbefore⟩ := Option.ne_none_iff_exists'.mp (ne_none_of_chain hchain hq)
      have hcontents : (fun r => (Function.update (Function.update table.heap q
          (some { before with next := entry.next })) p none r).map MpEntry.content) =
            Function.update table.contents p none := by
        have hsame : Function.update table.contents q (some before.content) = table.contents := by
          apply Function.update_eq_self_iff.mpr
          rw [contents, hbefore, Option.map_some]
        rw [map_update, contents_update]
        exact congrArg (Function.update · p none) hsame
      have hlinks : (fun r => (Function.update (Function.update table.heap q
          (some { before with next := entry.next })) p none r).map MpEntry.next) =
            Function.update (Function.update table.links q (some entry.next)) p none := by
        rw [map_update, links_update]
        rfl
      refine ⟨{ table with
        heap := Function.update (Function.update table.heap q
          (some { before with next := entry.next })) p none }, ?_, ?_, ?_⟩
      · exact congrArg (Option.map _) hbefore
      · apply hholds.chained.unlink hp rfl (congrFun hcontents) (fun _ _ => rfl)
        · intro r c hr hslot
          rw [congrFun hlinks r, Function.update_of_ne, Function.update_of_ne]
          · rintro rfl
            obtain ⟨c', hc', hslot'⟩ := (hmem r).mp hq
            rw [hr] at hc'
            cases hc'
            exact hslot hslot'
          · rintro rfl
            rw [hp] at hr
            cases hr
            exact hslot rfl
        · rw [hlinks]
          exact hchain.unlink hnext
        · refine Nat.le_trans ?_ hshort
          simp only [List.length_append, List.length_cons]
          omega
        · intro r
          rw [← hmem r]
          have hp' : p ∉ first ++ q :: after := by
            have hperm : (first ++ q :: p :: after).Perm (p :: (first ++ q :: after)) := by
              simpa using @List.perm_middle ℕ p (first ++ [q]) after
            exact (List.nodup_cons.mp (hperm.nodup_iff.mp hnodup)).1
          constructor
          · intro hr
            refine ⟨ne_of_mem_of_not_mem hr hp', ?_⟩
            simp only [List.mem_append, List.mem_cons] at hr ⊢
            tauto
          · rintro ⟨hne, hr⟩
            simp only [List.mem_append, List.mem_cons] at hr ⊢
            tauto
      · rw [← hcontents] at hstores
        exact hstores

/-- A call gives what the map gives, and the table then holds the map after it. -/
theorem step_holds {points : Matchpoints} (hholds : table.Holds points n) (hbound : n < bound)
    (call : Call) (hfresh : call.Free table) :
    ∃ table', table.step bound call = some (table', (points.step call).2) ∧
      table'.Holds (points.step call).1 (n + 1) := by
  cases call with
  | add pointer type addr instr =>
      obtain ⟨table', hadd, hholds⟩ :=
        add_holds hholds hbound hfresh type addr instr
      exact ⟨table', by rw [step, hadd]; rfl, hholds⟩
  | lookup type addr =>
      obtain ⟨found, hlookup, hfound⟩ := lookup_eq hholds hbound type addr
      exact ⟨table, by rw [step, hlookup, Option.map_some, hfound]; rfl, hholds.mono⟩
  | remove type addr =>
      obtain ⟨table', hremove, hholds⟩ := remove_holds hholds hbound type addr
      exact ⟨table', hremove, hholds.mono⟩

theorem run_holds {points : Matchpoints} (hholds : table.Holds points n) {calls : List Call}
    (hbound : n + calls.length ≤ bound) (hfresh : Fresh bound table calls) :
    ∃ table', table.run bound calls = some (table', (points.run calls).2) ∧
      table'.Holds (points.run calls).1 (n + calls.length) := by
  induction calls generalizing table points n with
  | nil => exact ⟨table, rfl, hholds⟩
  | cons call calls ih =>
      rw [List.length_cons] at hbound
      have hless : n < bound := by omega
      obtain ⟨hfree, hrest⟩ := hfresh
      obtain ⟨table', hstep, hholds'⟩ := step_holds hholds hless call hfree
      rw [hstep] at hrest
      obtain ⟨table'', hrun, hholds''⟩ := ih hholds' (by omega) hrest
      refine ⟨table'', ?_, ?_⟩
      · rw [run, hstep, Option.bind_some]
        show (run bound table' calls).map _ = _
        rw [hrun]
        rfl
      · rw [List.length_cons, ← Nat.add_assoc, Nat.add_right_comm]
        exact hholds''

/-- Every run of calls on a new table gives what the map gives.  It makes no bad access, its
loops end, and the entries that are then allocated are those of the map, one for each key. -/
theorem run_refines_map {size : ℕ} (hsize : 0 < size) {calls : List Call}
    (hbound : calls.length ≤ bound) (hfresh : Fresh bound (new size hsize) calls) :
    ∃ table', (new size hsize).run bound calls =
        some (table', (Matchpoints.run (fun _ => none) calls).2) ∧
      (∀ p entry, table'.heap p = some entry →
        (Matchpoints.run (fun _ => none) calls).1 (entry.type, entry.addr) = some entry.instr) ∧
      ∀ type addr instr, (Matchpoints.run (fun _ => none) calls).1 (type, addr) = some instr →
        ∃! p, ∃ next, table'.heap p = some ⟨type, addr, instr, next⟩ := by
  obtain ⟨table', hrun, -, hstores⟩ := run_holds (new_holds size hsize) (by omega) hfresh
  refine ⟨table', hrun, ?_, ?_⟩
  · intro p entry hp
    exact hstores.stored p (entry.type, entry.addr) entry.instr (by rw [contents, hp]; rfl)
  · intro type addr instr hpoint
    obtain ⟨p, hp⟩ := hstores.entry _ _ hpoint
    obtain ⟨entry, hentry, hcontent⟩ := Option.map_eq_some_iff.mp hp
    cases entry
    cases hcontent
    refine ⟨p, ⟨_, hentry⟩, ?_⟩
    rintro q ⟨next, hq⟩
    exact hstores.unique q p _ _ _ (by rw [contents, hq]; rfl) hp

/-- Three entries in one chain, of which the middle one is removed and its pointer used again. -/
theorem run_refines_map_reused :
    ∃ table', (new 4 (by decide)).run 5 [.add 7 .bpMemory 1 10, .add 8 .bpMemory 5 11,
        .add 9 .wpRead 1 12, .remove .bpMemory 5, .add 8 .bpMemory 9 13] =
        some (table', [none, none, none, some 11, none]) ∧
      (∀ p entry, table'.heap p = some entry →
        (Matchpoints.run (fun _ => none) [.add 7 .bpMemory 1 10, .add 8 .bpMemory 5 11,
          .add 9 .wpRead 1 12, .remove .bpMemory 5, .add 8 .bpMemory 9 13]).1
            (entry.type, entry.addr) = some entry.instr) ∧
      ∀ type addr instr, (Matchpoints.run (fun _ => none) [.add 7 .bpMemory 1 10,
          .add 8 .bpMemory 5 11, .add 9 .wpRead 1 12, .remove .bpMemory 5,
          .add 8 .bpMemory 9 13]).1 (type, addr) = some instr →
        ∃! p, ∃ next, table'.heap p = some ⟨type, addr, instr, next⟩ := by
  have hsize : 0 < 4 := by decide
  apply run_refines_map hsize (by decide)
  simp [Fresh, Call.Free, step, add, remove, search, searchLoop, slot, new,
    Function.update_apply]

end MpHash

end Prazor.Tenos
