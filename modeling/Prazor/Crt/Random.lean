import Prazor.Core.LinearCongruence

/-!
# `lrand48` and `srand48`

The words of the generator are three `unsigned short`, and the multiplication is made in 64
bits.  The type `u32_t` is a `long`, here of 32 bits, and signed: when the middle word is
converted and shifted its sign takes the place of the upper word.  So the generator does not
run through its `2 ^ 48` states: whatever it is seeded with, it comes to one cycle of `2 ^ 32`.

The member `__old_x`, which nothing reads, is left out.
-/

namespace Prazor.Crt

/-- `unsigned short xsubi[3]` -/
structure Xsubi where
  x0 : BitVec 16
  x1 : BitVec 16
  x2 : BitVec 16
deriving DecidableEq

/-- `struct drand48_data` -/
structure Drand48Data where
  x : Xsubi
  c : BitVec 16
  init : BitVec 16
  a : BitVec 64

/-- What the C library starts with. -/
def prlibcDrand48Data : Drand48Data := ⟨⟨0, 0, 0⟩, 0, 0, 0⟩

/-- The first part of `__drand48_iterate`. -/
def Drand48Data.initialised (buffer : Drand48Data) : Drand48Data :=
  if buffer.init = 0 then { buffer with a := 0x5deece66d, c := 0xb, init := 1 } else buffer

/-- `X`; the shifted middle word is a `long`. -/
def Xsubi.joined (xsubi : Xsubi) : BitVec 64 :=
  xsubi.x2.setWidth 64 <<< 32 ||| (xsubi.x1.setWidth 32 <<< 16).signExtend 64 |||
    xsubi.x0.setWidth 64

/-- `__drand48_iterate` -/
def drand48Iterate (xsubi : Xsubi) (buffer : Drand48Data) : Xsubi × Drand48Data :=
  let buffer := buffer.initialised
  let result := xsubi.joined * buffer.a + buffer.c.setWidth 64
  (⟨(result &&& 0xffff).setWidth 16, (result >>> 16 &&& 0xffff).setWidth 16,
    (result >>> 32 &&& 0xffff).setWidth 16⟩, buffer)

/-- `__nrand48_r` -/
def nrand48R (xsubi : Xsubi) (buffer : Drand48Data) : Xsubi × Drand48Data × BitVec 32 :=
  let (xsubi, buffer) := drand48Iterate xsubi buffer
  (xsubi, buffer, xsubi.x2.setWidth 32 <<< 15 ||| xsubi.x1.setWidth 32 >>> 1)

/-- `lrand48`, on the buffer of the library. -/
def lrand48 (buffer : Drand48Data) : Drand48Data × BitVec 32 :=
  let (xsubi, buffer, result) := nrand48R buffer.x buffer
  ({ buffer with x := xsubi }, result)

/-- `__srand48_r`; of a `long`, only the lower 32 bits are used. -/
def srand48 (seedval : BitVec 32) : Drand48Data where
  x := ⟨0x330e, (seedval &&& 0xffff).setWidth 16, (seedval.sshiftRight 16).setWidth 16⟩
  c := 0xb
  init := 1
  a := 0x5deece66d

/-! ## The lower words -/

/-- The number that the lower two words stand for. -/
def Xsubi.lower (xsubi : Xsubi) : ℕ := 2 ^ 16 * xsubi.x1.toNat + xsubi.x0.toNat

/-- The generator on the lower two words. -/
abbrev drand48Next : ℕ → ℕ := LinearCongruence.next (2 ^ 32) 0x5deece66d 0xb

/-- A buffer that was seeded has the constants. -/
def Drand48Data.Ready (buffer : Drand48Data) : Prop :=
  buffer.init ≠ 0 → buffer.a = 0x5deece66d ∧ buffer.c = 0xb

theorem prlibcDrand48Data_ready : prlibcDrand48Data.Ready := fun hinit => absurd rfl hinit

theorem srand48_ready (seedval : BitVec 32) : (srand48 seedval).Ready := fun _ => ⟨rfl, rfl⟩

theorem initialised_constants {buffer : Drand48Data} (hready : buffer.Ready) :
    buffer.initialised.a = 0x5deece66d ∧ buffer.initialised.c = 0xb := by
  rw [Drand48Data.initialised]
  split
  case isTrue => exact ⟨rfl, rfl⟩
  case isFalse hinit => exact hready hinit

theorem Xsubi.lower_lt (xsubi : Xsubi) : xsubi.lower < 2 ^ 32 := by
  have h0 := xsubi.x0.isLt
  have h1 := xsubi.x1.isLt
  rw [lower]
  omega

theorem Xsubi.words_of_lower {xsubi xsubi' : Xsubi} (heq : xsubi.lower = xsubi'.lower) :
    xsubi.x0 = xsubi'.x0 ∧ xsubi.x1 = xsubi'.x1 := by
  have h0 := xsubi.x0.isLt
  have h1 := xsubi.x1.isLt
  have h0' := xsubi'.x0.isLt
  have h1' := xsubi'.x1.isLt
  rw [lower, lower] at heq
  exact ⟨BitVec.eq_of_toNat_eq (by omega), BitVec.eq_of_toNat_eq (by omega)⟩

/-- The lower two words are joined without overlap. -/
theorem Xsubi.toNat_joined (xsubi : Xsubi) : xsubi.joined.toNat % 2 ^ 32 = xsubi.lower := by
  have h0 := xsubi.x0.isLt
  have h1 := xsubi.x1.isLt
  have hlow : xsubi.joined.setWidth 32 =
      xsubi.x1.setWidth 32 <<< 16 ||| xsubi.x0.setWidth 32 := by
    ext i hi
    have hwide : i < 64 := by omega
    simp [joined, hi, hwide, BitVec.getElem_signExtend]
  have hmiddle : (xsubi.x1.setWidth 32 <<< 16).toNat = 2 ^ 16 * xsubi.x1.toNat := by
    rw [BitVec.toNat_shiftLeft, BitVec.toNat_setWidth, Nat.shiftLeft_eq]
    omega
  have hlower : (xsubi.x0.setWidth 32).toNat = xsubi.x0.toNat := by
    rw [BitVec.toNat_setWidth]
    omega
  rw [← BitVec.toNat_setWidth, hlow, BitVec.toNat_or, hmiddle, hlower,
    ← Nat.two_pow_add_eq_or_of_lt h0]
  rfl

/-- Of a middle word that is negative the sign fills the place of the upper word. -/
theorem Xsubi.joined_of_negative {xsubi : Xsubi} (hsign : xsubi.x1.msb = true) :
    xsubi.joined = (xsubi.x1.setWidth 32 <<< 16).signExtend 64 ||| xsubi.x0.setWidth 64 := by
  have hnegative : (xsubi.x1.setWidth 32 <<< 16).msb = true := by
    rw [BitVec.msb_eq_getLsbD_last] at hsign ⊢
    simpa using hsign
  ext i hi
  rw [joined, BitVec.getElem_or, BitVec.getElem_or, BitVec.getElem_or]
  by_cases hlow : i < 32
  · simp [hlow]
  · simp [hlow, BitVec.getElem_signExtend, hnegative]

/-- The lower words of what a result is taken apart into. -/
theorem lower_split (result : BitVec 64) :
    Xsubi.lower ⟨(result &&& 0xffff).setWidth 16, (result >>> 16 &&& 0xffff).setWidth 16,
      (result >>> 32 &&& 0xffff).setWidth 16⟩ = result.toNat % 2 ^ 32 := by
  have hmask : ∀ y : BitVec 64, ((y &&& 0xffff).setWidth 16).toNat = y.toNat % 2 ^ 16 := by
    intro y
    rw [BitVec.toNat_setWidth, BitVec.toNat_and]
    show (y.toNat &&& (2 ^ 16 - 1)) % 2 ^ 16 = _
    rw [Nat.and_two_pow_sub_one_eq_mod, Nat.mod_mod]
  simp only [Xsubi.lower, hmask, BitVec.toNat_ushiftRight, Nat.shiftRight_eq_div_pow]
  omega

/-- A call makes one turn of the generator on the lower words. -/
theorem drand48Iterate_lower {xsubi : Xsubi} {buffer : Drand48Data} (hready : buffer.Ready) :
    (drand48Iterate xsubi buffer).1.lower = drand48Next xsubi.lower := by
  obtain ⟨ha, hc⟩ := initialised_constants hready
  have hresult : (xsubi.joined * buffer.initialised.a + buffer.initialised.c.setWidth 64).toNat =
      (xsubi.joined.toNat * 0x5deece66d + 0xb) % 2 ^ 64 := by
    rw [ha, hc, BitVec.toNat_add, BitVec.toNat_mul, Nat.mod_add_mod]
    rfl
  have hlow : xsubi.joined.toNat ≡ xsubi.lower [MOD 2 ^ 32] :=
    xsubi.toNat_joined.trans (Nat.mod_eq_of_lt xsubi.lower_lt).symm
  rw [drand48Iterate, lower_split, hresult, Nat.mod_mod_of_dvd _ (by norm_num), drand48Next,
    LinearCongruence.next, Nat.mul_comm 0x5deece66d]
  exact (hlow.mul_right _).add_right _

/-- The next words depend on those that are joined only. -/
theorem drand48Iterate_congr {xsubi xsubi' : Xsubi} {buffer buffer' : Drand48Data}
    (hready : buffer.Ready) (hready' : buffer'.Ready) (hjoined : xsubi.joined = xsubi'.joined) :
    (drand48Iterate xsubi buffer).1 = (drand48Iterate xsubi' buffer').1 := by
  obtain ⟨ha, hc⟩ := initialised_constants hready
  obtain ⟨ha', hc'⟩ := initialised_constants hready'
  rw [drand48Iterate, drand48Iterate, hjoined, ha, hc, ha', hc']

theorem lrand48_ready {buffer : Drand48Data} (hready : buffer.Ready) :
    (lrand48 buffer).1.Ready := fun _ => initialised_constants hready

/-- The lower 15 bits of the result are the upper ones of the lower words. -/
theorem toNat_lrand48 (buffer : Drand48Data) :
    (lrand48 buffer).2.toNat % 2 ^ 15 = (lrand48 buffer).1.x.lower / 2 ^ 17 := by
  show ((drand48Iterate buffer.x buffer).1.x2.setWidth 32 <<< 15 |||
    (drand48Iterate buffer.x buffer).1.x1.setWidth 32 >>> 1).toNat % 2 ^ 15 =
      (drand48Iterate buffer.x buffer).1.lower / 2 ^ 17
  generalize (drand48Iterate buffer.x buffer).1 = xsubi
  have h0 := xsubi.x0.isLt
  have h1 := xsubi.x1.isLt
  have h2 := xsubi.x2.isLt
  have hupper : (xsubi.x2.setWidth 32 <<< 15).toNat = 2 ^ 15 * xsubi.x2.toNat := by
    rw [BitVec.toNat_shiftLeft, BitVec.toNat_setWidth, Nat.shiftLeft_eq]
    omega
  have hlower : (xsubi.x1.setWidth 32 >>> 1).toNat = xsubi.x1.toNat / 2 := by
    rw [BitVec.toNat_ushiftRight, BitVec.toNat_setWidth, Nat.shiftRight_eq_div_pow]
    omega
  rw [BitVec.toNat_or, hupper, hlower, ← Nat.two_pow_add_eq_or_of_lt (by omega), Xsubi.lower]
  omega

/-! ## Many calls -/

/-- The buffer after some calls. -/
def afterCalls (buffer : Drand48Data) (n : ℕ) : Drand48Data :=
  (fun buffer => (lrand48 buffer).1)^[n] buffer

theorem afterCalls_succ (buffer : Drand48Data) (n : ℕ) :
    afterCalls buffer (n + 1) = (lrand48 (afterCalls buffer n)).1 :=
  Function.iterate_succ_apply' ..

theorem afterCalls_add (buffer : Drand48Data) (m n : ℕ) :
    afterCalls buffer (m + n) = afterCalls (afterCalls buffer n) m :=
  Function.iterate_add_apply ..

theorem afterCalls_spec {buffer : Drand48Data} (hready : buffer.Ready) (n : ℕ) :
    (afterCalls buffer n).Ready ∧
      (afterCalls buffer n).x.lower = drand48Next^[n] buffer.x.lower := by
  induction n with
  | zero => exact ⟨hready, rfl⟩
  | succ n ih =>
      rw [afterCalls_succ, Function.iterate_succ_apply', ← ih.2]
      exact ⟨lrand48_ready ih.1, drand48Iterate_lower ih.1⟩

/-- Before as many calls as there are lower words the middle word is once negative. -/
theorem exists_negative {buffer : Drand48Data} (hready : buffer.Ready) :
    ∃ k < 2 ^ 32, (afterCalls buffer k).x.x1.msb = true := by
  have hbij := LinearCongruence.bijOn_iterate (a := 0x5deece66d) (c := 0xb) (by norm_num)
    (by norm_num) buffer.x.lower_lt
  obtain ⟨k, hk, hvalue⟩ := hbij.surjOn (Finset.mem_coe.mpr (Finset.mem_range.mpr
    (show 2 ^ 31 < 2 ^ 32 by norm_num)))
  refine ⟨k, Finset.mem_range.mp (Finset.mem_coe.mp hk), ?_⟩
  have hlower : (afterCalls buffer k).x.lower = 2 ^ 31 := (afterCalls_spec hready k).2.trans hvalue
  have h0 := (afterCalls buffer k).x.x0.isLt
  rw [Xsubi.lower] at hlower
  rw [BitVec.msb_eq_decide, decide_eq_true_iff]
  omega

/-- Once the middle word was negative, the upper one is no longer what it was at the start:
two starts with the same lower words have the same words from there on. -/
theorem afterCalls_eq {buffer buffer' : Drand48Data} (hready : buffer.Ready)
    (hready' : buffer'.Ready) (hlower : buffer.x.lower = buffer'.x.lower) {n : ℕ}
    (hn : 2 ^ 32 ≤ n) : (afterCalls buffer n).x = (afterCalls buffer' n).x := by
  obtain ⟨k, hk, hsign⟩ := exists_negative hready
  have hle : k + 1 ≤ n := by omega
  clear hn
  induction n, hle using Nat.le_induction with
  | base =>
      obtain ⟨hk, hlk⟩ := afterCalls_spec hready k
      obtain ⟨hk', hlk'⟩ := afterCalls_spec hready' k
      obtain ⟨h0, h1⟩ := Xsubi.words_of_lower (hlk.trans ((congrArg _ hlower).trans hlk'.symm))
      rw [afterCalls_succ, afterCalls_succ]
      refine drand48Iterate_congr hk hk' ?_
      rw [Xsubi.joined_of_negative hsign, Xsubi.joined_of_negative (h1 ▸ hsign), h0, h1]
  | succ n hle ih =>
      rw [afterCalls_succ, afterCalls_succ]
      refine drand48Iterate_congr (afterCalls_spec hready n).1 (afterCalls_spec hready' n).1 ?_
      exact congrArg Xsubi.joined ih

/-- A full period later the words are the same. -/
theorem period_of_le {buffer : Drand48Data} (hready : buffer.Ready) {m n : ℕ} (hm : 2 ^ 32 ≤ m)
    (hle : m ≤ n) (hmod : m ≡ n [MOD 2 ^ 32]) :
    (afterCalls buffer m).x = (afterCalls buffer n).x := by
  obtain ⟨hready', hlower⟩ := afterCalls_spec hready (n - m)
  have hround : drand48Next^[n - m] buffer.x.lower = drand48Next^[0] buffer.x.lower :=
    (LinearCongruence.iterate_eq_iff (by norm_num) (by norm_num) buffer.x.lower_lt _ _).mpr
      (Nat.modEq_zero_iff_dvd.mpr ((Nat.modEq_iff_dvd' hle).mp hmod))
  rw [afterCalls_eq hready hready' (hlower.trans hround).symm hm, ← afterCalls_add,
    Nat.add_sub_cancel' hle]

/-- From `2 ^ 32` calls on the words are on a cycle of `2 ^ 32`, the same one from every
start. -/
theorem lrand48_period {buffer : Drand48Data} (hready : buffer.Ready) :
    (∀ m n, 2 ^ 32 ≤ m → 2 ^ 32 ≤ n →
      ((afterCalls buffer m).x = (afterCalls buffer n).x ↔ m ≡ n [MOD 2 ^ 32])) ∧
    ∀ buffer' : Drand48Data, buffer'.Ready →
      ∃ d < 2 ^ 32, ∀ n, 2 ^ 32 ≤ n → (afterCalls buffer' n).x = (afterCalls buffer (n + d)).x := by
  refine ⟨fun m n hm hn => ⟨fun heq => ?_, fun hmod => ?_⟩, fun buffer' hready' => ?_⟩
  · rw [← LinearCongruence.iterate_eq_iff (a := 0x5deece66d) (c := 0xb) (by norm_num)
      (by norm_num) buffer.x.lower_lt, ← (afterCalls_spec hready m).2,
      ← (afterCalls_spec hready n).2, heq]
  · rcases Nat.le_total m n with hle | hle
    · exact period_of_le hready hm hle hmod
    · exact (period_of_le hready hn hle hmod.symm).symm
  · have hbij := LinearCongruence.bijOn_iterate (a := 0x5deece66d) (c := 0xb) (by norm_num)
      (by norm_num) buffer.x.lower_lt
    obtain ⟨d, hd, hvalue⟩ := hbij.surjOn (Finset.mem_coe.mpr (Finset.mem_range.mpr
      buffer'.x.lower_lt))
    obtain ⟨hready'', hlower⟩ := afterCalls_spec hready d
    refine ⟨d, Finset.mem_range.mp (Finset.mem_coe.mp hd), fun n hn => ?_⟩
    rw [afterCalls_add]
    exact afterCalls_eq hready' hready'' (hlower.trans hvalue).symm hn

/-- Seeded with 0x18000 and with 0xFFFF8000 the generator is in one state after one call. -/
theorem lrand48_period_seeded :
    (lrand48 (srand48 0x18000)).1.x = (lrand48 (srand48 0xFFFF8000)).1.x ∧
      (afterCalls (srand48 7) (2 ^ 33)).x = (afterCalls (srand48 7) (2 ^ 32)).x := by
  refine ⟨by decide, ?_⟩
  exact ((lrand48_period (srand48_ready 7)).1 (2 ^ 33) (2 ^ 32) (by norm_num) (by norm_num)).mpr
    (by decide)

/-- Among `2 ^ 32` calls, the lower 15 bits of what `lrand48` gives are each of their values
`2 ^ 17` times. -/
theorem lrand48_uniform {buffer : Drand48Data} (hready : buffer.Ready) {v : ℕ}
    (hv : v < 2 ^ 15) :
    ((Finset.range (2 ^ 32)).filter fun n =>
      (lrand48 (afterCalls buffer n)).2.toNat % 2 ^ 15 = v).card = 2 ^ 17 := by
  have hresult : ∀ n, (lrand48 (afterCalls buffer n)).2.toNat % 2 ^ 15 =
      drand48Next^[n] (drand48Next buffer.x.lower) / 2 ^ 17 := by
    intro n
    obtain ⟨hready', hlower⟩ := afterCalls_spec hready n
    rw [toNat_lrand48, ← Function.iterate_succ_apply, Function.iterate_succ_apply', ← hlower]
    exact congrArg (· / 2 ^ 17) (drand48Iterate_lower hready')
  simp only [hresult]
  exact @LinearCongruence.card_upper 0x5deece66d 0xb (drand48Next buffer.x.lower) (by norm_num)
    (by norm_num) 17 15 v (LinearCongruence.next_lt (by norm_num) _) hv

theorem lrand48_uniform_unseeded :
    ((Finset.range (2 ^ 32)).filter fun n =>
      (lrand48 (afterCalls prlibcDrand48Data n)).2.toNat % 2 ^ 15 = 5).card = 2 ^ 17 :=
  lrand48_uniform prlibcDrand48Data_ready (by norm_num)

end Prazor.Crt
