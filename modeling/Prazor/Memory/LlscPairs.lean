import Prazor.Core.Machine
import Prazor.Memory.LlscLocks

/-!
# Two requesters and two lock slots

Two requesters each load-link an address of their own and then store to it.  There
is a slot for each of them, but the first slot is never taken, and what a slot
holds of an address are its lower 32 bits.
-/

namespace Prazor.Memory

/-- A linked access, by the identity of its requester. -/
inductive LinkedAccess where
  | loadLinked (id : ℕ) (adr : Word64)
  | storeConditional (id : ℕ) (adr : Word64)
  deriving DecidableEq

namespace LlscLocks

/-- A linked access at the target, and whether it fails.  The address of a
load-linked is cut to an `unsigned int`. -/
def serve (lks : LlscLocks) : LinkedAccess → LlscLocks × Bool
  | .loadLinked id adr => lks.loadlockedFail id (adr.setWidth 32)
  | .storeConditional id adr => lks.storeconditionalFail id adr

/-- The slots after a number of linked accesses of any requesters. -/
def after (history : List LinkedAccess) : LlscLocks := Machine.run serve fresh history

/-- A requester and the address it uses. -/
structure Requester where
  id : ℕ
  adr : Word64

def Requester.load (requester : Requester) : LinkedAccess :=
  .loadLinked requester.id requester.adr

def Requester.store (requester : Requester) : LinkedAccess :=
  .storeConditional requester.id requester.adr

/-- Both store-conditionals succeed, in this order, after both load-linkeds. -/
def BothSucceed (history : List LinkedAccess) (first second : Requester)
    (stores : List LinkedAccess) : Prop :=
  Machine.outputs serve (after history) (first.load :: second.load :: stores) =
    [false, false, false, false]

/-! ## The first slot -/

/-- No access takes the first slot. -/
theorem llsc0_serve {lks : LlscLocks} (hfree : lks.llsc0 = fresh.llsc0)
    (access : LinkedAccess) : (lks.serve access).1.llsc0 = fresh.llsc0 := by
  have hadr : lks.llsc0.a = free := by rw [hfree]; rfl
  cases access with
  | loadLinked id adr =>
      rw [serve, loadlockedFail_of_free hadr]
      exact hfree
  | storeConditional id adr =>
      simp only [serve, storeconditionalFail]
      split
      · show ({ lks.llsc0 with a := free } : LlscLock) = _
        rw [hfree]
        rfl
      · split <;> exact hfree

theorem llsc0_after (history : List LinkedAccess) :
    (after history).llsc0 = fresh.llsc0 := by
  have hstep : ∀ lks access, lks.llsc0 = fresh.llsc0 →
      (serve lks access).1.llsc0 = fresh.llsc0 :=
    fun _ access hfree => llsc0_serve hfree access
  rw [after]
  exact Machine.run_invariant serve hstep rfl history

/-- The only store-conditional the first slot lets succeed is one that nobody has
load-linked: of the null requester, to the address that marks free slots. -/
def Unmarked (requester : Requester) : Prop := requester.id = 0 ∧ requester.adr = free

/-- A store-conditional with the first slot free looks at the second slot. -/
theorem store_serve {lks : LlscLocks} (hfree : lks.llsc0 = fresh.llsc0)
    (requester : Requester) :
    (lks.serve requester.store).2 = false ↔
      Unmarked requester ∨ (lks.llsc1.a = requester.adr ∧ lks.llsc1.id = requester.id) := by
  have hslot : lks.llsc0.a = requester.adr ∧ lks.llsc0.id = requester.id ↔
      Unmarked requester := by
    rw [hfree, Unmarked, and_comm]
    exact and_congr eq_comm eq_comm
  rw [← hslot]
  simp only [Requester.store, serve, storeconditionalFail]
  split
  case isTrue hfirst => simp [hfirst]
  case isFalse hfirst =>
    split
    case isTrue hsecond => simp [hsecond]
    case isFalse hsecond => simp [hfirst, hsecond]

/-- The second slot after both load-linkeds is that of the later one. -/
theorem loads_serve {lks : LlscLocks} (hfree : lks.llsc0 = fresh.llsc0)
    (first second : Requester) :
    ((lks.serve first.load).1.serve second.load).1 =
      { llsc0 := fresh.llsc0
        llsc1 := { a := (second.adr.setWidth 32).setWidth 64, id := second.id } } := by
  have hfirst := llsc0_serve hfree first.load
  have hadr : (lks.serve first.load).1.llsc0.a = free := by rw [hfirst]; rfl
  show ((lks.serve first.load).1.loadlockedFail second.id (second.adr.setWidth 32)).1 = _
  rw [loadlockedFail_of_free hadr, hfirst]

theorem load_succeeds (lks : LlscLocks) (requester : Requester) :
    (lks.serve requester.load).2 = false := by
  simp only [Requester.load, serve, loadlockedFail]
  split_ifs <;> rfl

/-- A store-conditional leaves the identity in the second slot, and the slot itself
when it is of another requester. -/
theorem llsc1_store (lks : LlscLocks) (requester : Requester) :
    (lks.serve requester.store).1.llsc1.id = lks.llsc1.id ∧
      (lks.llsc1.id ≠ requester.id → (lks.serve requester.store).1.llsc1 = lks.llsc1) := by
  simp only [Requester.store, serve, storeconditionalFail]
  split
  · exact ⟨rfl, fun _ => rfl⟩
  · split
    case isTrue hsecond => exact ⟨rfl, fun hne => absurd hsecond.2 hne⟩
    case isFalse => exact ⟨rfl, fun _ => rfl⟩

/-- An address is found again when it has no bits above the lower 32. -/
theorem setWidth_setWidth_eq_iff (adr : Word64) :
    (adr.setWidth 32).setWidth 64 = adr ↔ adr.toNat < 2 ^ 32 := by
  rw [← BitVec.toNat_inj]
  simp only [BitVec.toNat_setWidth]
  have hadr := adr.isLt
  omega

/-- The later requester succeeds for addresses below 4 GB, and the earlier one not
at all, whichever of them stores first. -/
theorem outputs_stores {lks : LlscLocks} (hfree : lks.llsc0 = fresh.llsc0)
    {first second : Requester} (hid : first.id ≠ second.id)
    (hslot : lks.llsc1 = { a := (second.adr.setWidth 32).setWidth 64, id := second.id })
    {stores : List LinkedAccess} (hstores : stores.Perm [first.store, second.store]) :
    Machine.outputs serve lks stores = [false, false] ↔
      Unmarked first ∧ (Unmarked second ∨ second.adr.toNat < 2 ^ 32) := by
  have hfirst : ∀ lks' : LlscLocks, lks'.llsc0 = fresh.llsc0 → lks'.llsc1.id = second.id →
      ((serve lks' first.store).2 = false ↔ Unmarked first) := by
    intro lks' hfree' hid'
    rw [store_serve hfree', hid', or_iff_left]
    exact fun h => hid h.2.symm
  have hsecond : ∀ lks' : LlscLocks, lks'.llsc0 = fresh.llsc0 → lks'.llsc1 = lks.llsc1 →
      ((serve lks' second.store).2 = false ↔
        Unmarked second ∨ second.adr.toNat < 2 ^ 32) := by
    intro lks' hfree' hsame
    rw [store_serve hfree', hsame, hslot, setWidth_setWidth_eq_iff, and_iff_left rfl]
  have hlksid : lks.llsc1.id = second.id := by rw [hslot]
  rcases List.perm_pair.mp hstores with rfl | rfl
  · have hnext := hsecond (serve lks first.store).1 (llsc0_serve hfree first.store)
      ((llsc1_store lks first).2 (hlksid ▸ hid.symm))
    simp only [Machine.outputs_cons, Machine.outputs_nil, List.cons.injEq, and_true]
    exact and_congr (hfirst lks hfree hlksid) hnext
  · have hnext := hfirst (serve lks second.store).1 (llsc0_serve hfree second.store)
      ((llsc1_store lks second).1.trans hlksid)
    simp only [Machine.outputs_cons, Machine.outputs_nil, List.cons.injEq, and_true]
    rw [and_comm]
    exact and_congr hnext (hsecond lks hfree rfl)

/-- After any accesses, and in both orders of the stores: both succeed if and only if
the requester that load-links first is the null one, with the address that marks free
slots, and the other address is below 4 GB. -/
theorem bothSucceed_iff (history : List LinkedAccess) (first second : Requester)
    (hid : first.id ≠ second.id) (_hadr : first.adr ≠ second.adr)
    (stores : List LinkedAccess) (hstores : stores.Perm [first.store, second.store]) :
    BothSucceed history first second stores ↔
      Unmarked first ∧ second.adr.toNat < 2 ^ 32 := by
  have hfree := llsc0_after history
  have hloads := loads_serve hfree first second
  have hzero : (((after history).serve first.load).1.serve second.load).1.llsc0 =
      fresh.llsc0 := by rw [hloads]
  have hone : (((after history).serve first.load).1.serve second.load).1.llsc1 =
      { a := (second.adr.setWidth 32).setWidth 64, id := second.id } := by rw [hloads]
  have hother : Unmarked first → ¬Unmarked second :=
    fun hfirst hsecond => hid (hfirst.1.trans hsecond.1.symm)
  calc BothSucceed history first second stores
      ↔ Machine.outputs serve (((after history).serve first.load).1.serve second.load).1
          stores = [false, false] := by
        rw [BothSucceed, Machine.outputs_cons, Machine.outputs_cons, load_succeeds,
          load_succeeds]
        simp only [List.cons.injEq, true_and]
    _ ↔ Unmarked first ∧ (Unmarked second ∨ second.adr.toNat < 2 ^ 32) :=
        outputs_stores hzero hid hone hstores
    _ ↔ Unmarked first ∧ second.adr.toNat < 2 ^ 32 :=
        and_congr_right fun hfirst => or_iff_right (hother hfirst)

/-- Requester 0 uses the address that marks free slots, requester 1 a small one. -/
theorem bothSucceed_iff_null :
    BothSucceed [] ⟨0, free⟩ ⟨1, 0x1000⟩ [.storeConditional 0 free, .storeConditional 1 0x1000] :=
  (bothSucceed_iff [] ⟨0, free⟩ ⟨1, 0x1000⟩ (by decide) (by decide) _ (.refl _)).mpr
    ⟨⟨rfl, rfl⟩, by decide⟩

/-- Two requesters at the addresses 0x1000 and 0x2000, of a target that has served
nothing before. -/
theorem not_bothSucceed :
    ¬∀ (history : List LinkedAccess) (first second : Requester), first.id ≠ second.id →
      first.adr ≠ second.adr →
      ∀ stores : List LinkedAccess, stores.Perm [first.store, second.store] →
        BothSucceed history first second stores := by
  intro hclaim
  have hboth := hclaim [] ⟨1, 0x1000⟩ ⟨2, 0x2000⟩ (by decide) (by decide)
    [.storeConditional 1 0x1000, .storeConditional 2 0x2000] (.refl _)
  revert hboth
  unfold BothSucceed
  decide

end LlscLocks

end Prazor.Memory
