import Prazor.Core.Numerals
import Prazor.Core.Payload

/-!
# The energy shim of a benchmark

The shim asks a current probe for its energy readings before and after the benchmark and reports
their difference and the time between.  The probe's answer to one question is an input of the
model, with every way in which the exchange can fail.  `none` is an access outside an array, or a
read behind the bytes that were received.

Of the prints only the numbers of the report are modelled.  The backdoors of the simulator and the
power of the report are left out.
-/

namespace Prazor.Utils.EnergyShim

/-! ## `sscanf` -/

/-- A directive of a format: a character, or `%i`. -/
inductive Directive
  | literal (c : Byte)
  | integer

def isSpace (c : Byte) : Bool := c == 0x20 || 0x09 ≤ c && c ≤ 0x0D

/-- The value of a digit, of 16 or more for other characters. -/
def digitValue (c : Byte) : ℕ :=
  if 0x30 ≤ c ∧ c ≤ 0x39 then c.toNat - 0x30
  else if 0x41 ≤ c ∧ c ≤ 0x46 then c.toNat - 55
  else if 0x61 ≤ c ∧ c ≤ 0x66 then c.toNat - 87
  else 16

/-- The base of a `%i` conversion by its prefix, and the text with the digits. -/
def numberBase : List Byte → ℕ × List Byte
  | zero :: x :: text =>
      if zero = 0x30 then
        if x = 0x78 ∨ x = 0x58 then (16, text) else (8, zero :: x :: text)
      else (10, zero :: x :: text)
  | text => (10, text)

/-- An optional sign. -/
def numberSign : List Byte → Bool × List Byte
  | c :: text =>
      if c = 0x2D then (true, text) else if c = 0x2B then (false, text) else (false, c :: text)
  | [] => (false, [])

/-- A `%i` conversion: the `int` and the text behind it.  The value of a number outside the range
of `int` is not defined by the language; its low bits are taken. -/
def scanInteger (text : List Byte) : Option (BitVec 32 × List Byte) :=
  let (negative, text) := numberSign (text.dropWhile isSpace)
  let (base, text) := numberBase text
  let digits := text.takeWhile fun c => digitValue c < base
  let rest := text.dropWhile fun c => digitValue c < base
  let value : ℤ := Numerals.value base (digits.map digitValue)
  if digits = [] then none else some (BitVec.ofInt 32 (if negative then -value else value), rest)

/-- The numbers that are converted before the text fails to match. -/
def sscanf : List Directive → List Byte → List (BitVec 32)
  | [], _ => []
  | .literal c :: format, text =>
      match text with
      | c' :: rest => if c' = c then sscanf format rest else []
      | [] => []
  | .integer :: format, text =>
      match scanInteger text with
      | some (value, rest) => value :: sscanf format rest
      | none => []

/-- `"ENERGY=%i!%i|"` -/
def replyFormat : List Directive :=
  [.literal 0x45, .literal 0x4E, .literal 0x45, .literal 0x52, .literal 0x47, .literal 0x59,
    .literal 0x3D, .integer, .literal 0x21, .integer, .literal 0x7C]

/-! ## `currentprobe_operate` -/

/-- `N_ENERGIES` -/
abbrev nEnergies : ℕ := 2

abbrev Energies := Fin nEnergies → BitVec 32

/-- `energies[en] = value`; `none` outside the array. -/
def store (energies : Energies) (en : ℕ) (value : BitVec 32) : Option Energies :=
  if hen : en < nEnergies then some (Function.update energies ⟨en, hen⟩ value) else none

/-- How the calls of an exchange come out. -/
structure Exchange where
  /-- `gethostbyname` -/
  found : Bool
  /-- `socket` -/
  opened : Bool
  /-- `connect`, whose failure leaves the socket open -/
  connected : Bool
  /-- `send` -/
  sent : Bool
  /-- The bytes `recv` puts into `dir`, if it does not fail. -/
  received : Option (List Byte)

/-- `currentprobe_open`: whether `sd` is a socket then, and the return code. -/
def currentprobeOpen (exchange : Exchange) : Bool × ℤ :=
  if !exchange.opened then (false, -1)
  else if !exchange.connected then (true, -1)
  else (true, 0)

/-- `&energies[0]`, `&energies[1]` as arguments of `sscanf`. -/
def assign (energies : Energies) (values : List (BitVec 32)) : Energies :=
  fun en => values[en.val]?.getD (energies en)

/-- From the test of `sd` on: the energies and the return code. -/
def askProbe (sd : Bool) (energies : Energies) (exchange : Exchange) : Option (Energies × ℤ) :=
  if !sd || !exchange.sent then some (energies, -1)
  else
    match exchange.received with
    | none => some (energies, -1)
    | some dir =>
        -- `dir` is not initialised: behind what was received there is no NUL to rely on.
        if 0 ∈ dir then
          let values := sscanf replyFormat (dir.takeWhile (· ≠ 0))
          some (assign energies values, if values.length = 2 then 0 else -1)
        else none

/-- `currentprobe_operate`; `sd` tells whether the socket is open. -/
def currentprobeOperate (sd : Bool) (energies : Energies) (exchange : Exchange) :
    Option (Bool × Energies × ℤ) :=
  if !sd && !exchange.found then do
    let energies ← store energies 0 0
    let energies ← store energies 1 0
    let energies ← store energies 2 0
    some (sd, energies, -4)
  else
    let sd := if sd then sd else (currentprobeOpen exchange).1
    (askProbe sd energies exchange).map fun (energies, rc) => (sd, energies, rc)

/-! ## The shim -/

/-- The globals. -/
structure Shim where
  sd : Bool
  energies : Energies
  startTime : BitVec 32

/-- `energy_meters(energies, 0)`, or `energy_meters(energies, energies)` when it is relative: then
the loop overwrites the baseline it reads. -/
def energyMeters (shim : Shim) (relative : Bool) (exchange : Exchange) : Option Shim := do
  let (sd, energies, _) ← currentprobeOperate shim.sd (fun _ => 0) exchange
  some { shim with
    sd := sd
    energies := (List.finRange nEnergies).foldl
      (fun out en => Function.update out en (energies en - if relative then out en else 0))
      shim.energies }

/-- What `gettimeofday` gives. -/
structure Timeval where
  tvSec : ℤ
  tvUsec : ℤ

/-- `tenos_clock`: an `int`, returned as an `unsigned long`. -/
def tenosClock (tv : Timeval) : BitVec 64 :=
  let r : BitVec 32 := BitVec.ofInt 32 (tv.tvUsec + (1000 * 1000) * tv.tvSec)
  r.signExtend 64

def snapStart (shim : Shim) (exchange : Exchange) (tv : Timeval) : Option Shim := do
  let shim ← energyMeters shim false exchange
  some { shim with startTime := (tenosClock tv).setWidth 32 }

/-- What is printed: `tt` as `%i`, which reads the `unsigned int` as an `int`, and `ee0` and `ee1`
as `%u`. -/
structure Report where
  tt : ℤ
  energies : Energies

def snapEnd (shim : Shim) (exchange : Exchange) (tv : Timeval) : Option Report := do
  let shim ← energyMeters shim true exchange
  let endTime := (tenosClock tv).setWidth 32
  let tt := endTime - shim.startTime
  some { tt := tt.toInt, energies := shim.energies }

/-- A run, from the globals as they are at its start. -/
def measure (first last : Exchange) (start stop : Timeval) : Option Report := do
  let shim ← snapStart { sd := false, energies := fun _ => 0, startTime := 0 } first start
  snapEnd shim last stop

/-! ## What a measurement is for -/

/-- The socket is open after an exchange. -/
def Exchange.opens (sd : Bool) (exchange : Exchange) : Bool :=
  sd || exchange.found && exchange.opened

/-- The numbers that an exchange returns. -/
def Exchange.numbers (sd : Bool) (exchange : Exchange) : List (BitVec 32) :=
  if exchange.opens sd && exchange.sent then
    (exchange.received.map fun dir => sscanf replyFormat (dir.takeWhile (· ≠ 0))).getD []
  else []

/-- Microseconds between two times. -/
def elapsed (start stop : Timeval) : ℤ :=
  (stop.tvUsec + 1000000 * stop.tvSec) - (start.tvUsec + 1000000 * start.tvSec)

/-- A report gives the differences of the readings of two exchanges that returned two numbers
each, otherwise no reading of one side alone, and the time. -/
structure Reports (first last : List (BitVec 32)) (time : ℤ) (report : Report) : Prop where
  difference : first.length = 2 → last.length = 2 → ∀ en : Fin nEnergies,
    ∃ before after, first[en.val]? = some before ∧ last[en.val]? = some after ∧
      report.energies en = after - before
  notLast : ∀ en : Fin nEnergies, ∀ after, last[en.val]? = some after →
    first[en.val]? = none → report.energies en ≠ after
  notFirst : ∀ en : Fin nEnergies, ∀ before, first[en.val]? = some before →
    last[en.val]? = none → report.energies en ≠ -before
  elapsed : 0 ≤ time → time < 2 ^ 32 → report.tt = time

/-- The measurement stays inside its arrays and reports what it should. -/
def Measures (first last : Exchange) (start stop : Timeval) : Prop :=
  ∃ report, measure first last start stop = some report ∧
    Reports (first.numbers false) (last.numbers (first.opens false)) (elapsed start stop) report

/-- An exchange finds the host unless the socket is open already, and a reply ends with a NUL. -/
def Exchange.Safe (sd : Bool) (exchange : Exchange) : Prop :=
  (sd || exchange.found) ∧
    (exchange.opens sd → exchange.sent → ∀ dir, exchange.received = some dir → 0 ∈ dir)

variable {sd : Bool} {exchange first last : Exchange} {start stop : Timeval} {shim : Shim}

/-! ## One exchange -/

/-- An exchange that finds no host writes behind the array. -/
theorem operate_unfound (hfound : ¬(sd || exchange.found) = true) (energies : Energies) :
    currentprobeOperate sd energies exchange = none := by
  have hlost : (!sd && !exchange.found) = true := by simpa using hfound
  rw [currentprobeOperate, if_pos hlost]
  rfl

theorem operate_found (hfound : (sd || exchange.found) = true) (energies : Energies) :
    currentprobeOperate sd energies exchange =
      (askProbe (exchange.opens sd) energies exchange).map fun (energies, rc) =>
        (exchange.opens sd, energies, rc) := by
  have hnot : ¬(!sd && !exchange.found) = true := by simpa [imp_iff_not_or] using hfound
  have hopens : (if sd then sd else (currentprobeOpen exchange).1) = exchange.opens sd := by
    cases hsd : sd with
    | true => rfl
    | false =>
        have hhost : exchange.found = true := by simpa [hsd] using hfound
        simp only [currentprobeOpen, Exchange.opens, hhost]
        cases exchange.opened <;> cases exchange.connected <;> rfl
  rw [currentprobeOperate, if_neg hnot, hopens]

/-- A safe exchange leaves the numbers it returns. -/
theorem operate_safe (hsafe : exchange.Safe sd) (energies : Energies) :
    ∃ rc, currentprobeOperate sd energies exchange =
      some (exchange.opens sd, assign energies (exchange.numbers sd), rc) := by
  obtain ⟨hfound, hnul⟩ := hsafe
  rw [operate_found hfound, askProbe, Exchange.numbers]
  by_cases hready : (exchange.opens sd && exchange.sent) = true
  · have hasks : ¬(!exchange.opens sd || !exchange.sent) = true := by simpa using hready
    rw [if_neg hasks, if_pos hready]
    cases hreceived : exchange.received with
    | none => exact ⟨-1, rfl⟩
    | some dir =>
        rw [Bool.and_eq_true] at hready
        simp only [if_pos (hnul hready.1 hready.2 dir hreceived)]
        exact ⟨_, rfl⟩
  · have hasks : (!exchange.opens sd || !exchange.sent) = true := by
      simpa [imp_iff_not_or] using hready
    rw [if_pos hasks, if_neg hready]
    exact ⟨-1, rfl⟩

/-- Any other exchange leaves an array or the bytes received. -/
theorem operate_of_not_safe (hnotsafe : ¬exchange.Safe sd) (energies : Energies) :
    currentprobeOperate sd energies exchange = none := by
  by_cases hfound : (sd || exchange.found) = true
  · obtain ⟨hopens, hsent, dir, hreceived, hnul⟩ : exchange.opens sd = true ∧
        exchange.sent = true ∧ ∃ dir, exchange.received = some dir ∧ 0 ∉ dir := by
      simpa [Exchange.Safe, hfound] using hnotsafe
    rw [operate_found hfound, askProbe, hopens, hsent, hreceived]
    simpa using hnul
  · exact operate_unfound hfound energies

theorem sscanf_length (format : List Directive) (text : List Byte) :
    (sscanf format text).length ≤ format.countP fun directive =>
      match directive with
      | .literal _ => false
      | .integer => true := by
  induction format generalizing text with
  | nil => simp [sscanf]
  | cons directive format ih =>
      cases directive with
      | literal c =>
          rw [List.countP_cons_of_neg (by simp)]
          cases text with
          | nil => simp [sscanf]
          | cons c' rest =>
              rw [sscanf]
              split_ifs
              · exact ih rest
              · simp
      | integer =>
          rw [List.countP_cons_of_pos (by simp), sscanf]
          cases scanInteger text with
          | none => simp
          | some scanned =>
              rw [List.length_cons]
              exact Nat.succ_le_succ (ih scanned.2)

/-- An exchange returns two numbers at most. -/
theorem numbers_length (sd : Bool) (exchange : Exchange) : (exchange.numbers sd).length ≤ 2 := by
  rw [Exchange.numbers]
  split_ifs
  · cases exchange.received with
    | none => exact Nat.zero_le 2
    | some dir => exact sscanf_length replyFormat _
  · exact Nat.zero_le 2

/-! ## The report -/

/-- The loop of `energy_meters` treats every element by itself. -/
theorem foldl_meters (readings out : Energies) (relative : Bool) :
    (List.finRange nEnergies).foldl
        (fun out en => Function.update out en (readings en - if relative then out en else 0)) out =
      fun en => readings en - if relative then out en else 0 := by
  have hrange : List.finRange nEnergies = [(0 : Fin 2), (1 : Fin 2)] := rfl
  funext en
  rw [hrange, List.foldl_cons, List.foldl_cons, List.foldl_nil]
  match en with
  | ⟨0, _⟩ => rfl
  | ⟨1, _⟩ => rfl

theorem energyMeters_safe (hsafe : exchange.Safe shim.sd) (relative : Bool) :
    energyMeters shim relative exchange =
      some { shim with
        sd := exchange.opens shim.sd
        energies := fun en => assign (fun _ => 0) (exchange.numbers shim.sd) en -
          if relative then shim.energies en else 0 } := by
  obtain ⟨rc, hoperate⟩ := operate_safe hsafe fun _ => 0
  rw [energyMeters, hoperate, Option.bind_eq_bind, Option.bind_some]
  simp only [foldl_meters]

theorem energyMeters_of_not_safe (hnotsafe : ¬exchange.Safe shim.sd) (relative : Bool) :
    energyMeters shim relative exchange = none := by
  rw [energyMeters, operate_of_not_safe hnotsafe]
  rfl

/-- What the two exchanges and times are reported as. -/
def reported (first last : List (BitVec 32)) (start stop : Timeval) : Report where
  tt := ((tenosClock stop).setWidth 32 - (tenosClock start).setWidth 32).toInt
  energies := fun en => assign (fun _ => 0) last en - assign (fun _ => 0) first en

theorem snapStart_safe (hsafe : exchange.Safe shim.sd) (tv : Timeval) :
    snapStart shim exchange tv =
      some {
        sd := exchange.opens shim.sd
        energies := fun en => assign (fun _ => 0) (exchange.numbers shim.sd) en
        startTime := (tenosClock tv).setWidth 32 } := by
  rw [snapStart, energyMeters_safe hsafe, Option.bind_eq_bind, Option.bind_some]
  simp

theorem snapEnd_safe (hsafe : exchange.Safe shim.sd) (tv : Timeval) :
    snapEnd shim exchange tv =
      some {
        tt := ((tenosClock tv).setWidth 32 - shim.startTime).toInt
        energies := fun en =>
          assign (fun _ => 0) (exchange.numbers shim.sd) en - shim.energies en } := by
  rw [snapEnd, energyMeters_safe hsafe, Option.bind_eq_bind, Option.bind_some]
  simp

theorem measure_safe (hfirst : first.Safe false) (hlast : last.Safe (first.opens false))
    (start stop : Timeval) :
    measure first last start stop =
      some (reported (first.numbers false) (last.numbers (first.opens false)) start stop) := by
  rw [measure, snapStart_safe hfirst, Option.bind_eq_bind, Option.bind_some]
  exact snapEnd_safe hlast stop

theorem measure_of_not_safe (hnotsafe : ¬(first.Safe false ∧ last.Safe (first.opens false)))
    (start stop : Timeval) : measure first last start stop = none := by
  by_cases hfirst : first.Safe false
  · have hlast : ¬last.Safe (first.opens false) := fun hlast => hnotsafe ⟨hfirst, hlast⟩
    rw [measure, snapStart_safe hfirst, Option.bind_eq_bind, Option.bind_some, snapEnd,
      energyMeters_of_not_safe hlast]
    rfl
  · rw [measure, snapStart, energyMeters_of_not_safe hfirst]
    rfl

/-- The clock is the microseconds modulo `2^32`. -/
theorem tenosClock_eq (tv : Timeval) :
    (tenosClock tv).setWidth 32 = BitVec.ofInt 32 (tv.tvUsec + 1000000 * tv.tvSec) := by
  rw [tenosClock]
  apply BitVec.eq_of_getLsbD_eq
  intro i hi
  have hword : i < 64 := by omega
  rw [BitVec.getLsbD_setWidth, BitVec.getLsbD_signExtend]
  simp only [hi, hword, decide_true, Bool.true_and, if_true]
  rfl

/-- The difference of two clocks is the time between modulo `2^32`, across a wrap of the clock
too. -/
theorem tenosClock_sub (start stop : Timeval) :
    (tenosClock stop).setWidth 32 - (tenosClock start).setWidth 32 =
      BitVec.ofInt 32 (elapsed start stop) := by
  rw [tenosClock_eq, tenosClock_eq, elapsed, sub_eq_add_neg,
    sub_eq_add_neg (stop.tvUsec + _), BitVec.ofInt_add _ (-(start.tvUsec + _)), BitVec.ofInt_neg]

/-- The printed time is the time between unless that is too large for an `int`. -/
theorem toInt_ofInt_eq_iff {time : ℤ} (hnonneg : 0 ≤ time) (hlt : time < 2 ^ 32) :
    (BitVec.ofInt 32 time).toInt = time ↔ time < 2 ^ 31 := by
  rw [BitVec.toInt_ofInt]
  constructor
  · intro heq
    have hbound := @Int.bmod_lt time (2 ^ 32) (by decide)
    omega
  · intro hsmall
    exact Int.bmod_eq_of_le (by omega) (by omega)

theorem reports_of_length {first last : List (BitVec 32)} (hlength : first.length = last.length)
    (htime : ¬(2 ^ 31 ≤ elapsed start stop ∧ elapsed start stop < 2 ^ 32)) :
    Reports first last (elapsed start stop) (reported first last start stop) := by
  have hnone (en : Fin nEnergies) : first[en.val]? = none ↔ last[en.val]? = none := by
    rw [List.getElem?_eq_none_iff, List.getElem?_eq_none_iff, hlength]
  constructor
  · intro hfirst hlast en
    have hin : en.val < first.length := hfirst ▸ en.isLt
    have hin' : en.val < last.length := hlast ▸ en.isLt
    refine ⟨first[en.val], last[en.val], List.getElem?_eq_getElem hin,
      List.getElem?_eq_getElem hin', ?_⟩
    simp only [reported, assign, List.getElem?_eq_getElem hin,
      List.getElem?_eq_getElem hin', Option.getD_some]
  · intro en after hafter hbefore
    rw [(hnone en).mp hbefore] at hafter
    cases hafter
  · intro en before hbefore hafter
    rw [(hnone en).mpr hafter] at hbefore
    cases hbefore
  · intro hnonneg hlt
    rw [reported, tenosClock_sub, toInt_ofInt_eq_iff hnonneg hlt]
    exact not_le.mp fun hle => htime ⟨hle, hlt⟩

/-- Numbers of one side alone are reported as they are. -/
theorem not_reports {first last : List (BitVec 32)} (hlength : first.length ≠ last.length)
    (hfirst : first.length ≤ 2) (hlast : last.length ≤ 2) (start stop : Timeval) :
    ¬Reports first last (elapsed start stop) (reported first last start stop) := by
  intro hreports
  rcases Nat.lt_or_gt_of_ne hlength with hless | hmore
  · have hin : first.length < 2 := by omega
    have hbefore : first[first.length]? = none := List.getElem?_eq_none le_rfl
    have hafter : last[first.length]? = some last[first.length] := List.getElem?_eq_getElem hless
    apply hreports.notLast ⟨first.length, hin⟩ last[first.length] hafter hbefore
    simp only [reported, assign, hafter, hbefore, Option.getD_some, Option.getD_none]
    exact BitVec.sub_zero _
  · have hin : last.length < 2 := by omega
    have hafter : last[last.length]? = none := List.getElem?_eq_none le_rfl
    have hbefore : first[last.length]? = some first[last.length] := List.getElem?_eq_getElem hmore
    apply hreports.notFirst ⟨last.length, hin⟩ first[last.length] hbefore hafter
    simp only [reported, assign, hafter, hbefore, Option.getD_some, Option.getD_none]
    exact BitVec.zero_sub _

/-- A time of `2^31` microseconds or more is printed as a negative number. -/
theorem not_reports_of_time {first last : List (BitVec 32)}
    (hle : 2 ^ 31 ≤ elapsed start stop) (hlt : elapsed start stop < 2 ^ 32) :
    ¬Reports first last (elapsed start stop) (reported first last start stop) := by
  intro hreports
  have hnonneg : 0 ≤ elapsed start stop := by omega
  have htime := hreports.elapsed hnonneg hlt
  rw [reported, tenosClock_sub, toInt_ofInt_eq_iff hnonneg hlt] at htime
  omega

/-- A measurement is right exactly when both exchanges find the host, their replies have a NUL,
they return equally many numbers, and the time between is not one that `%i` prints as negative. -/
theorem measures_iff (first last : Exchange) (start stop : Timeval) :
    Measures first last start stop ↔
      first.Safe false ∧ last.Safe (first.opens false) ∧
        (first.numbers false).length = (last.numbers (first.opens false)).length ∧
        ¬(2 ^ 31 ≤ elapsed start stop ∧ elapsed start stop < 2 ^ 32) := by
  by_cases hsafe : first.Safe false ∧ last.Safe (first.opens false)
  · rw [Measures, measure_safe hsafe.1 hsafe.2, ← and_assoc, and_iff_right hsafe]
    constructor
    · rintro ⟨report, hreport, hreports⟩
      cases hreport
      constructor
      · by_contra hlength
        exact not_reports hlength (numbers_length _ _) (numbers_length _ _) start stop hreports
      · exact fun htime => not_reports_of_time htime.1 htime.2 hreports
    · exact fun ⟨hlength, htime⟩ => ⟨_, rfl, reports_of_length hlength htime⟩
  · rw [Measures, measure_of_not_safe hsafe, ← and_assoc]
    refine iff_of_false ?_ fun hand => hsafe hand.1
    rintro ⟨report, hreport, -⟩
    cases hreport

/-- No host is found; or the last exchange gets no reply, after a first one of `ENERGY=5!2|` with
its NUL; or both get that reply and 2200 seconds are between them. -/
theorem not_measures :
    ¬Measures ⟨false, false, false, false, none⟩ ⟨false, false, false, false, none⟩ ⟨0, 0⟩ ⟨1, 0⟩ ∧
      ¬Measures ⟨true, true, true, true,
          some [0x45, 0x4E, 0x45, 0x52, 0x47, 0x59, 0x3D, 0x35, 0x21, 0x32, 0x7C, 0]⟩
        ⟨true, true, true, true, none⟩ ⟨0, 0⟩ ⟨1, 0⟩ ∧
      ¬Measures ⟨true, true, true, true,
          some [0x45, 0x4E, 0x45, 0x52, 0x47, 0x59, 0x3D, 0x35, 0x21, 0x32, 0x7C, 0]⟩
        ⟨true, true, true, true,
          some [0x45, 0x4E, 0x45, 0x52, 0x47, 0x59, 0x3D, 0x35, 0x21, 0x32, 0x7C, 0]⟩
        ⟨0, 0⟩ ⟨2200, 0⟩ := by
  refine ⟨?_, ?_, ?_⟩
  · rintro ⟨report, hreport, -⟩
    have hnone : measure ⟨false, false, false, false, none⟩ ⟨false, false, false, false, none⟩
        ⟨0, 0⟩ ⟨1, 0⟩ = none := rfl
    rw [hnone] at hreport
    cases hreport
  · rintro ⟨report, hreport, hreports⟩
    cases hreport
    exact hreports.notFirst ⟨0, by decide⟩ 5 (by decide) rfl (by decide)
  · rintro ⟨report, hreport, hreports⟩
    cases hreport
    exact absurd (hreports.elapsed (by decide) (by decide)) (by decide)

end Prazor.Utils.EnergyShim
