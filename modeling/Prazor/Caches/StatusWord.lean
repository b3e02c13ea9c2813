import Prazor.Core.Payload

/-!
# The status word of a cache line

A way keeps one 64-bit word for each of its lines: the lock in bit 0, the line
state in bits 1 to 3 and a version in the bits above.  The word is only changed
by compare-exchange: `acquirets` sets the lock of the word a holder has seen,
`releasets` replaces the locked word by the one `incts` makes, and `updatets`
replaces an unlocked word in one step.
-/

namespace Prazor.Caches

/-- `ccache::state_t`. -/
inductive LineState where
  | invalid
  | uniqueClean
  | uniqueDirty
  | sharedClean
  | sharedDirty
  deriving DecidableEq, Repr

namespace LineState

def code : LineState → Word64
  | invalid => 0
  | uniqueClean => 1
  | uniqueDirty => 2
  | sharedClean => 3
  | sharedDirty => 4

/-- The cast `(state_t) code`.  Codes above four are never stored. -/
def ofCode (code : Word64) : LineState :=
  if code = 0 then invalid
  else if code = 1 then uniqueClean
  else if code = 2 then uniqueDirty
  else if code = 3 then sharedClean
  else sharedDirty

@[simp]
theorem ofCode_code (s : LineState) : ofCode s.code = s := by
  cases s <;> decide

theorem code_lt (s : LineState) : s.code.toNat < 8 := by
  cases s <;> decide

end LineState

/-- `(state_t) ((ts >> 1) & 0x7)`. -/
def lineState (ts : Word64) : LineState := .ofCode ((ts >>> 1) &&& 0x7)

/-- `ts >> 4`. -/
def version (ts : Word64) : ℕ := (ts >>> 4).toNat

/-- The lock bit. -/
def locked (ts : Word64) : Bool := ts.getLsbD 0

/-- `incts(oldts, s)`: the next version with state `s`, unlocked. -/
def incts (oldts : Word64) (s : LineState) : Word64 :=
  (((oldts >>> 4) + 1) <<< 4) ||| (s.code <<< 1)

/-- `incts(oldts)`: the next version with the state of `oldts`, unlocked. -/
def inctsSame (oldts : Word64) : Word64 :=
  (((oldts >>> 4) + 1) <<< 4) ||| (oldts &&& (0xE : Word64))

/-- What a compare-exchange leaves: the word, the `expected` argument and the
return value. -/
structure Exchange where
  status : Word64
  oldts : Word64
  success : Bool

/-- `atomic<u64_t>::compare_exchange_strong`. -/
def compareExchangeStrong (status expected desired : Word64) : Exchange :=
  if status = expected then
    { status := desired, oldts := expected, success := true }
  else
    { status := status, oldts := status, success := false }

/-- `acquirets(oldts, index)`. -/
def acquirets (status oldts : Word64) : Exchange :=
  let oldts := oldts &&& ~~~1
  let exchange := compareExchangeStrong status oldts (oldts ||| 1)
  if exchange.success then { exchange with oldts := exchange.oldts ||| 1 }
  else exchange

/-- `acquirets(oldts, index, s)`. -/
def acquiretsState (status oldts : Word64) (s : LineState) : Exchange :=
  let newts := ((((oldts >>> 4) + 1) <<< 4) ||| (s.code <<< 1)) ||| 1
  let exchange := compareExchangeStrong status (oldts &&& ~~~1) newts
  if exchange.success then { exchange with oldts := newts } else exchange

/-- `updatets(index, oldts, newts)`. -/
def updatets (status oldts newts : Word64) : Exchange :=
  { compareExchangeStrong status (oldts &&& ~~~1) newts with oldts := oldts }

/-- `releasets(index, oldts, newts)`. -/
def releasets (status oldts newts : Word64) : Exchange :=
  { compareExchangeStrong status oldts newts with oldts := oldts }

/-! ## The three fields -/

theorem getLsbD_one (i : ℕ) : (1 : Word64).getLsbD i = decide (i = 0) := by
  rw [show (1 : Word64) = BitVec.twoPow 64 0 from rfl, BitVec.getLsbD_twoPow]
  simp [eq_comm]

/-- A word built from a version field and a state field keeps both. -/
theorem toNat_pack (v c : Word64) (hc : c.toNat < 8) :
    ((v <<< 4) ||| (c <<< 1)).toNat = v.toNat % 2 ^ 60 * 16 + c.toNat * 2 := by
  have hshift : (v <<< 4).toNat = (v.toNat % 2 ^ 60) <<< 4 := by
    rw [BitVec.toNat_shiftLeft, Nat.shiftLeft_eq, Nat.shiftLeft_eq]
    omega
  have hcode : (c <<< 1).toNat = c.toNat * 2 := by
    rw [BitVec.toNat_shiftLeft, Nat.shiftLeft_eq]
    omega
  rw [BitVec.toNat_or, hshift, hcode,
    ← Nat.shiftLeft_add_eq_or_of_lt (by omega : c.toNat * 2 < 2 ^ 4),
    Nat.shiftLeft_eq]

theorem version_eq (ts : Word64) : version ts = ts.toNat / 16 := by
  rw [version, BitVec.toNat_ushiftRight, Nat.shiftRight_eq_div_pow]

theorem version_lt (ts : Word64) : version ts < 2 ^ 60 := by
  have hts := ts.isLt
  rw [version_eq]
  omega

theorem lineState_eq (ts : Word64) :
    lineState ts = .ofCode (BitVec.ofNat 64 (ts.toNat / 2 % 8)) := by
  rw [lineState]
  congr 1
  apply BitVec.eq_of_toNat_eq
  rw [BitVec.toNat_and, BitVec.toNat_ushiftRight, Nat.shiftRight_eq_div_pow]
  show ts.toNat / 2 ^ 1 &&& 2 ^ 3 - 1 = _
  rw [Nat.and_two_pow_sub_one_eq_mod, BitVec.toNat_ofNat]
  omega

theorem locked_eq (ts : Word64) : locked ts = decide (ts.toNat % 2 = 1) := by
  rw [locked, BitVec.getLsbD, Nat.testBit_zero]

theorem toNat_incts (oldts : Word64) (s : LineState) :
    (incts oldts s).toNat = (version oldts + 1) % 2 ^ 60 * 16 + s.code.toNat * 2 := by
  have hversion := version_lt oldts
  rw [incts, toNat_pack _ _ s.code_lt, BitVec.toNat_add, ← version]
  congr 2
  rw [show (1 : Word64).toNat = 1 from rfl]
  omega

/-- Completing an operation moves to the next version, below the wrap-around. -/
theorem version_incts {oldts : Word64} (hwrap : version oldts + 1 < 2 ^ 60)
    (s : LineState) : version (incts oldts s) = version oldts + 1 := by
  have hcode := s.code_lt
  rw [version_eq, toNat_incts]
  omega

@[simp]
theorem lineState_incts (oldts : Word64) (s : LineState) :
    lineState (incts oldts s) = s := by
  have hcode := s.code_lt
  rw [lineState_eq, toNat_incts]
  have hfield : ((version oldts + 1) % 2 ^ 60 * 16 + s.code.toNat * 2) / 2 % 8 =
      s.code.toNat := by omega
  rw [hfield, BitVec.ofNat_toNat, BitVec.setWidth_eq, LineState.ofCode_code]

@[simp]
theorem locked_incts (oldts : Word64) (s : LineState) :
    locked (incts oldts s) = false := by
  rw [locked_eq, toNat_incts, decide_eq_false_iff_not]
  omega

/-- The state field of a word, in place. -/
theorem and_state_mask (ts : Word64) :
    ts &&& (0xE : Word64) = ((ts >>> 1) &&& 0x7) <<< 1 := by
  apply BitVec.eq_of_toNat_eq
  have hfield : ((ts >>> 1) &&& 0x7).toNat = ts.toNat / 2 % 8 := by
    rw [BitVec.toNat_and, BitVec.toNat_ushiftRight, Nat.shiftRight_eq_div_pow]
    exact Nat.and_two_pow_sub_one_eq_mod _ 3
  have hmask : ts.toNat &&& 14 = 2 * (ts.toNat / 2 &&& 7) := by
    apply Nat.eq_of_testBit_eq
    intro i
    cases i with
    | zero => simp
    | succ i =>
        rw [Nat.testBit_and, Nat.testBit_succ, Nat.testBit_succ 14,
          Nat.testBit_succ (2 * _), Nat.mul_div_cancel_left _ (by decide),
          Nat.testBit_and]
  rw [BitVec.toNat_and, BitVec.toNat_shiftLeft, hfield, Nat.shiftLeft_eq]
  show ts.toNat &&& 14 = _
  rw [hmask, Nat.and_two_pow_sub_one_eq_mod _ 3]
  omega

theorem toNat_inctsSame (oldts : Word64) :
    (inctsSame oldts).toNat =
      (version oldts + 1) % 2 ^ 60 * 16 + oldts.toNat / 2 % 8 * 2 := by
  have hversion := version_lt oldts
  have hfield : ((oldts >>> 1) &&& 0x7).toNat = oldts.toNat / 2 % 8 := by
    rw [BitVec.toNat_and, BitVec.toNat_ushiftRight, Nat.shiftRight_eq_div_pow]
    exact Nat.and_two_pow_sub_one_eq_mod _ 3
  rw [inctsSame, and_state_mask, toNat_pack _ _ (by omega), BitVec.toNat_add,
    ← version, hfield, show (1 : Word64).toNat = 1 from rfl]
  omega

theorem version_inctsSame {oldts : Word64} (hwrap : version oldts + 1 < 2 ^ 60) :
    version (inctsSame oldts) = version oldts + 1 := by
  rw [version_eq, toNat_inctsSame]
  omega

@[simp]
theorem lineState_inctsSame (oldts : Word64) :
    lineState (inctsSame oldts) = lineState oldts := by
  have hfield : ((version oldts + 1) % 2 ^ 60 * 16 + oldts.toNat / 2 % 8 * 2) / 2 % 8 =
      oldts.toNat / 2 % 8 := by omega
  rw [lineState_eq, toNat_inctsSame, hfield, lineState_eq]

@[simp]
theorem locked_inctsSame (oldts : Word64) : locked (inctsSame oldts) = false := by
  rw [locked_eq, toNat_inctsSame, decide_eq_false_iff_not]
  omega

/-! ## The lock bit -/

/-- Setting the lock of an unlocked word adds one. -/
theorem toNat_or_one {ts : Word64} (hlocked : locked ts = false) :
    (ts ||| 1).toNat = ts.toNat + 1 := by
  rw [locked_eq, decide_eq_false_iff_not] at hlocked
  have heven : ts.toNat = (ts.toNat / 2) <<< 1 := by
    rw [Nat.shiftLeft_eq]
    omega
  rw [BitVec.toNat_or, heven]
  show _ ||| 1 = _
  rw [← Nat.shiftLeft_add_eq_or_of_lt (by decide : 1 < 2 ^ 1)]

theorem version_or_one {ts : Word64} (hlocked : locked ts = false) :
    version (ts ||| 1) = version ts := by
  have hor := toNat_or_one hlocked
  rw [locked_eq, decide_eq_false_iff_not] at hlocked
  rw [version_eq, version_eq, hor]
  omega

theorem lineState_or_one {ts : Word64} (hlocked : locked ts = false) :
    lineState (ts ||| 1) = lineState ts := by
  have hor := toNat_or_one hlocked
  rw [locked_eq, decide_eq_false_iff_not] at hlocked
  rw [lineState_eq, lineState_eq, hor]
  congr 2
  omega

@[simp]
theorem locked_or_one (ts : Word64) : locked (ts ||| 1) = true := by
  simp [locked]

@[simp]
theorem locked_and_not_one (ts : Word64) : locked (ts &&& ~~~1) = false := by
  simp [locked]

/-- Masking the lock of an unlocked word changes nothing. -/
theorem and_not_one {ts : Word64} (hlocked : locked ts = false) :
    ts &&& ~~~1 = ts := by
  apply BitVec.eq_of_getLsbD_eq
  intro i hi
  rw [BitVec.getLsbD_and, BitVec.getLsbD_not, getLsbD_one]
  by_cases hzero : i = 0
  · subst hzero
    rw [show ts.getLsbD 0 = false from hlocked, Bool.false_and]
  · simp [hi, hzero]

theorem version_and_not_one (ts : Word64) : version (ts &&& ~~~1) = version ts := by
  rw [version, version]
  congr 1
  apply BitVec.eq_of_getLsbD_eq
  intro i hi
  simp only [BitVec.getLsbD_ushiftRight, BitVec.getLsbD_and, BitVec.getLsbD_not,
    getLsbD_one]
  have hne : 4 + i ≠ 0 := by omega
  by_cases hlt : 4 + i < 64
  · simp [hlt]
  · simp [BitVec.getLsbD_of_ge _ _ (not_lt.mp hlt)]

/-! ## The helpers -/

theorem compareExchangeStrong_self (status desired : Word64) :
    compareExchangeStrong status status desired = ⟨desired, status, true⟩ :=
  if_pos rfl

theorem compareExchangeStrong_of_ne {status expected : Word64}
    (hne : status ≠ expected) (desired : Word64) :
    compareExchangeStrong status expected desired = ⟨status, status, false⟩ :=
  if_neg hne

/-- A successful acquire locks the word it has seen. -/
theorem acquirets_self (oldts : Word64) :
    acquirets (oldts &&& ~~~1) oldts =
      ⟨(oldts &&& ~~~1) ||| 1, (oldts &&& ~~~1) ||| 1, true⟩ := by
  simp only [acquirets, compareExchangeStrong_self, if_true]

theorem acquirets_of_ne {status oldts : Word64} (hne : status ≠ oldts &&& ~~~1) :
    acquirets status oldts = ⟨status, status, false⟩ := by
  simp only [acquirets, compareExchangeStrong_of_ne hne, Bool.false_eq_true, if_false]

theorem acquirets_success {status oldts : Word64} :
    (acquirets status oldts).success = true ↔ status = oldts &&& ~~~1 := by
  by_cases heq : status = oldts &&& ~~~1
  · rw [heq, acquirets_self]
    exact ⟨fun _ => rfl, fun _ => rfl⟩
  · rw [acquirets_of_ne heq]
    exact ⟨fun h => (Bool.false_ne_true h).elim, fun h => absurd h heq⟩

theorem acquiretsState_self (oldts : Word64) (s : LineState) :
    acquiretsState (oldts &&& ~~~1) oldts s =
      ⟨incts oldts s ||| 1, incts oldts s ||| 1, true⟩ := by
  simp only [acquiretsState, compareExchangeStrong_self, if_true, incts]

theorem acquiretsState_of_ne {status oldts : Word64} {s : LineState}
    (hne : status ≠ oldts &&& ~~~1) :
    acquiretsState status oldts s = ⟨status, status, false⟩ := by
  simp only [acquiretsState, compareExchangeStrong_of_ne hne, Bool.false_eq_true,
    if_false]

theorem updatets_self (oldts newts : Word64) :
    updatets (oldts &&& ~~~1) oldts newts = ⟨newts, oldts, true⟩ := by
  simp only [updatets, compareExchangeStrong_self]

theorem updatets_of_ne {status oldts : Word64} (hne : status ≠ oldts &&& ~~~1)
    (newts : Word64) : updatets status oldts newts = ⟨status, oldts, false⟩ := by
  simp only [updatets, compareExchangeStrong_of_ne hne]

/-- A release succeeds on the word its holder has locked. -/
theorem releasets_self (oldts newts : Word64) :
    releasets oldts oldts newts = ⟨newts, oldts, true⟩ := by
  simp only [releasets, compareExchangeStrong_self]

theorem releasets_of_ne {status oldts : Word64} (hne : status ≠ oldts)
    (newts : Word64) : releasets status oldts newts = ⟨status, oldts, false⟩ := by
  simp only [releasets, compareExchangeStrong_of_ne hne]

end Prazor.Caches
