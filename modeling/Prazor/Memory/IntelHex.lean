import Prazor.Core.Numerals
import Prazor.Core.Payload

/-!
# Intel hex

`cbgihex::dump` prints bytes as records of at most 32 and `cbgihex::reader` writes the bytes of
records to a memory.  A file is the list of its characters.  `none` is an access outside `opd` or
`bdata`, or a failed assertion.

The members `csum` and `finished`, which nothing reads, are left out.
-/

namespace Prazor.Memory

open Prazor.Numerals

/-- The members of `cbgihex`. -/
structure Cbgihex where
  a : BitVec 32
  p : BitVec 32
  opd : ℕ → Byte

/-- What the constructor leaves.  Its `p = 0` is an assignment to the parameter of that name,
so the member keeps what the memory held before. -/
def Cbgihex.new (p : BitVec 32) (opd : ℕ → Byte) : Cbgihex where
  a := 0
  p := p
  opd := opd

/-! ## Writing -/

/-- The digits of `printf` for `%0…X`. -/
def paddedDigits (width value : ℕ) : List ℕ :=
  List.replicate (width - (numeral 16 value).length) 0 ++ numeral 16 value

def hexDigit (d : ℕ) : Byte := BitVec.ofNat 8 (if d < 10 then 0x30 + d else 0x37 + d)

/-- `printf("%0…X", value)` -/
def printX (width value : ℕ) : List Byte := (paddedDigits width value).map hexDigit

namespace Cbgihex

/-- `opfl`: the record that is printed. -/
def opfl (o : Cbgihex) : Option (Cbgihex × List Byte) :=
  if o.p = 0 then some (o, [])
  else if 32 < o.p.toInt then none
  else
    let data := (List.range o.p.toInt.toNat).map o.opd
    let csum : Byte := (o.p + o.a + o.a.sshiftRight 8).setWidth 8 + data.sum
    some ({ o with a := o.a + o.p, p := 0 },
      [0x3A] ++ printX 2 o.p.toNat ++ printX 4 (o.a &&& 0xFFFF).toNat ++ [0x30, 0x30] ++
        data.flatMap (fun x => printX 2 x.toNat) ++ printX 2 ((256 - csum.toNat) % 256) ++ [0x0A])

/-- `opbyte` -/
def opbyte (o : Cbgihex) (x : Byte) : Option (Cbgihex × List Byte) :=
  if o.p.toNat < 32 then
    let o := { o with opd := Function.update o.opd o.p.toNat x, p := o.p + 1 }
    if 32 ≤ o.p.toInt then o.opfl else some (o, [])
  else none

/-- `dump` -/
def dump (o : Cbgihex) : List Byte → Option (Cbgihex × List Byte)
  | [] => o.opfl
  | x :: bytes => do
      let (o, first) ← o.opbyte x
      let (o, rest) ← dump o bytes
      some (o, first ++ rest)

end Cbgihex

/-! ## Reading -/

def toupper (c : Byte) : Byte := if 0x61 ≤ c ∧ c ≤ 0x7A then c - 0x20 else c

/-- A `char` as an `int`. -/
def charInt (signedChar : Bool) (c : Byte) : BitVec 32 :=
  if signedChar then c.signExtend 32 else c.setWidth 32

/-- The next character of the file that is not a space, or -1. -/
def nextChar : List Byte → Byte × List Byte
  | [] => (-1, [])
  | c :: text => if toupper c = 0x20 then nextChar text else (toupper c, text)

def digitChar (signedChar : Bool) (c : Byte) : Byte :=
  if (charInt signedChar c).sle 0x39 then c - 0x30 else c - 0x37

/-- `iread`: the number and the rest of the file. -/
def iread (signedChar : Bool) : ℕ → BitVec 32 → List Byte → BitVec 32 × List Byte
  | 0, r, text => (r, text)
  | len + 1, r, text =>
      let (c, text) := nextChar text
      iread signedChar len ((r <<< 4) + charInt signedChar (digitChar signedChar c)) text

/-- What is printed while a file is read. -/
inductive HexMessage
  | checksumError (line : ℕ) (residue : BitVec 32)
  | ignoredType2
  | disjointAddresses (laddr a : BitVec 32) (line : ℕ)
  | unknownType (ltype : BitVec 32) (line : ℕ)

/-- The members and variables of `reader`, and what it has written and printed. -/
structure Loading where
  a : BitVec 32
  p : BitVec 32
  lenmax : ℕ
  line : ℕ
  writes : List (Word64 × Byte)
  printed : List HexMessage

namespace Loading

variable (signedChar : Bool) (s : Loading)

def print (messages : List HexMessage) : Loading := { s with printed := s.printed ++ messages }

/-- `par->ip_write(p++, data)` for the bytes of a record, as long as there is room. -/
def writeBytes (s : Loading) : List Byte → Option Loading
  | [] => some s
  | data :: bdata =>
      if s.lenmax = 0 then none
      else
        writeBytes { s with
          writes := s.writes ++ [(s.p.signExtend 64, data)]
          p := s.p + 1
          lenmax := s.lenmax - 1 } bdata

/-- The bytes of a record with the checksum over them. -/
def readData : ℕ → Byte → List Byte → List Byte × Byte × List Byte
  | 0, lsum, text => ([], lsum, text)
  | llen + 1, lsum, text =>
      let (value, text) := iread signedChar 2 0 text
      let data : Byte := value.setWidth 8
      let (bdata, lsum, text) := readData llen (lsum + data) text
      (data :: bdata, lsum, text)

/-- What is done with the bytes of a record. -/
def takeRecord (llen laddr ltype : BitVec 32) (bdata : List Byte) : Option Loading :=
  if ltype = 1 then some s
  else if ltype = 2 ∧ llen = 2 then
    some (s.print ((if laddr ≠ 0 then [.ignoredType2] else []) ++
      (bdata.filter (· ≠ 0)).map fun _ => .ignoredType2))
  else if ltype = 0 then do
    let s := if s.a ≠ -1 ∧ laddr ≠ s.a then s.print [.disjointAddresses laddr s.a s.line] else s
    let s ← s.writeBytes bdata
    some { s with a := laddr + llen }
  else some (s.print [.unknownType ltype s.line])

/-- A record behind its colon. -/
def readRecord (text : List Byte) : Option (Loading × List Byte) :=
  let (llen, text) := iread signedChar 2 0 text
  let (laddr, text) := iread signedChar 4 0 text
  let (ltype, text) := iread signedChar 2 0 text
  let lsum : Byte := (llen + laddr + ltype + laddr.sshiftRight 8).setWidth 8
  if 256 < llen.toInt then none
  else
    let (bdata, lsum, text) := readData signedChar llen.toInt.toNat lsum text
    let (check, text) := iread signedChar 2 0 text
    let lsum := lsum + check.setWidth 8
    let s := if lsum ≠ 0 then s.print [.checksumError s.line (charInt signedChar lsum)] else s
    (s.takeRecord llen laddr ltype bdata).map (·, text)

/-! ### The end of a file -/

theorem length_nextChar (text : List Byte) : (nextChar text).2.length ≤ text.length := by
  induction text with
  | nil => exact le_refl 0
  | cons c text ih =>
      rw [nextChar]
      split_ifs
      · exact Nat.le_succ_of_le ih
      · exact Nat.le_succ _

theorem length_iread (len : ℕ) (r : BitVec 32) (text : List Byte) :
    (iread signedChar len r text).2.length ≤ text.length := by
  induction len generalizing r text with
  | zero => exact le_refl _
  | succ len ih => exact le_trans (ih _ _) (length_nextChar text)

theorem length_readData (llen : ℕ) (lsum : Byte) (text : List Byte) :
    (readData signedChar llen lsum text).2.2.length ≤ text.length := by
  induction llen generalizing lsum text with
  | zero => exact le_refl _
  | succ llen ih => exact le_trans (ih _ _) (length_iread signedChar 2 0 text)

theorem length_readRecord {s s' : Loading} {text rest : List Byte}
    (hrecord : s.readRecord signedChar text = some (s', rest)) : rest.length ≤ text.length := by
  simp only [readRecord] at hrecord
  split_ifs at hrecord
  all_goals
    obtain ⟨_, _, hpair⟩ := Option.map_eq_some_iff.mp hrecord
    rw [← (Prod.mk.inj hpair).2]
    apply (length_iread signedChar 2 0 _).trans
    apply (length_readData signedChar _ _ _).trans
    apply (length_iread signedChar 2 0 _).trans
    exact (length_iread signedChar 4 0 _).trans (length_iread signedChar 2 0 _)

/-- The loop of `reader`.  Where the file ends inside a record, the loop ends with it. -/
def readerLoop (s : Loading) (text : List Byte) : Option Loading :=
  match text with
  | [] => some s
  | c :: text =>
      let s := if c = 0x0A then { s with line := s.line + 1 } else s
      if c ≠ 0x3A then readerLoop s text
      else
        match _hrecord : s.readRecord signedChar text with
        | none => none
        | some (s, rest) => readerLoop s rest
termination_by text.length
decreasing_by
  · exact Nat.lt_succ_self _
  · exact Nat.lt_succ_of_le (length_readRecord signedChar _hrecord)

end Loading

/-- `reader`, of a file for a memory with room for `lenmax` bytes. -/
def Cbgihex.reader (signedChar : Bool) (o : Cbgihex) (lenmax : ℕ) (text : List Byte) :
    Option Loading :=
  Loading.readerLoop signedChar
    { a := o.a, p := o.p, lenmax := lenmax, line := 1, writes := [], printed := [] } text

/-- What one object has dumped, another one reads back, without a checksum error. -/
def RoundTrip (signedChar : Bool) (writer reader : Cbgihex) : Prop :=
  ∀ bytes : List Byte, bytes.length < 2 ^ 31 → ∀ lenmax, bytes.length ≤ lenmax →
    ∃ o text s, writer.dump bytes = some (o, text) ∧
      reader.reader signedChar lenmax text = some s ∧
      s.writes = bytes.mapIdx (fun i data => (BitVec.ofNat 64 i, data)) ∧
      ∀ line residue, HexMessage.checksumError line residue ∉ s.printed

/-! ## Digits -/

theorem length_paddedDigits {width v : ℕ} (hwidth : 0 < width) (hlt : v < 16 ^ width) :
    (paddedDigits width v).length = width := by
  have hle : (numeral 16 v).length ≤ width := by
    rw [numeral]
    split_ifs with hzero
    · exact hwidth
    · rw [List.length_reverse, Nat.digits_length_le_iff (by decide)]
      exact hlt
  rw [paddedDigits, List.length_append, List.length_replicate]
  exact Nat.sub_add_cancel hle

theorem lt_of_mem_paddedDigits {width v d : ℕ} (hd : d ∈ paddedDigits width v) : d < 16 := by
  rcases List.mem_append.mp hd with hzero | hdigit
  · rw [List.eq_of_mem_replicate hzero]
    decide
  · exact lt_of_mem_numeral (by decide) d hdigit

/-- The zeros in front do not count. -/
theorem value_paddedDigits (width v : ℕ) : value 16 (paddedDigits width v) = v := by
  have hzeros : ∀ n, (List.replicate n 0).foldl (fun sum d => sum * 16 + d) 0 = 0 := by
    intro n
    induction n with
    | zero => rfl
    | succ n ih =>
        rw [List.replicate_succ, List.foldl_cons]
        exact ih
  rw [paddedDigits, value, List.foldl_append, hzeros]
  exact value_numeral 16 v

/-- A digit that is printed is read. -/
theorem nextChar_hexDigit {d : ℕ} (hd : d < 16) (text : List Byte) :
    nextChar (hexDigit d :: text) = (hexDigit d, text) := by
  have hplain : ∀ d < 16, toupper (hexDigit d) = hexDigit d ∧ hexDigit d ≠ 0x20 := by decide
  rw [nextChar, (hplain d hd).1, if_neg (hplain d hd).2]

theorem digitChar_hexDigit (signedChar : Bool) {d : ℕ} (hd : d < 16) :
    charInt signedChar (digitChar signedChar (hexDigit d)) = BitVec.ofNat 32 d := by
  have hdigits : ∀ d < 16,
      charInt signedChar (digitChar signedChar (hexDigit d)) = BitVec.ofNat 32 d := by
    cases signedChar <;> decide
  exact hdigits d hd

/-- `iread` of digits. -/
theorem iread_digits (signedChar : Bool) (digits : List ℕ) (hdigits : ∀ d ∈ digits, d < 16)
    (v : ℕ) (text : List Byte) :
    iread signedChar digits.length (BitVec.ofNat 32 v) (digits.map hexDigit ++ text) =
      (BitVec.ofNat 32 (digits.foldl (fun sum d => sum * 16 + d) v), text) := by
  induction digits generalizing v with
  | nil => rfl
  | cons d digits ih =>
      have hd := hdigits d List.mem_cons_self
      have hshift : BitVec.ofNat 32 v <<< 4 + BitVec.ofNat 32 d = BitVec.ofNat 32 (v * 16 + d) := by
        apply BitVec.eq_of_toNat_eq
        rw [BitVec.toNat_add, BitVec.toNat_shiftLeft, BitVec.toNat_ofNat, BitVec.toNat_ofNat,
          BitVec.toNat_ofNat, Nat.shiftLeft_eq]
        omega
      rw [List.length_cons, iread, List.map_cons, List.cons_append, nextChar_hexDigit hd]
      simp only [digitChar_hexDigit signedChar hd, hshift]
      rw [ih (fun d hmem => hdigits d (List.mem_cons_of_mem _ hmem)), List.foldl_cons]

/-- `iread` of what `printf` has printed. -/
theorem iread_printX (signedChar : Bool) {width v : ℕ} (hwidth : 0 < width)
    (hlt : v < 16 ^ width) (text : List Byte) :
    iread signedChar width 0 (printX width v ++ text) = (BitVec.ofNat 32 v, text) := by
  have hread := iread_digits signedChar (paddedDigits width v)
    (fun d hd => lt_of_mem_paddedDigits hd) 0 text
  have hvalue := value_paddedDigits width v
  rw [value] at hvalue
  rw [length_paddedDigits hwidth hlt, hvalue] at hread
  exact hread

/-! ## One record -/

/-- The record of some bytes. -/
def recordText (a : BitVec 32) (data : List Byte) : List Byte :=
  let csum : Byte :=
    (BitVec.ofNat 32 data.length + a + a.sshiftRight 8).setWidth 8 + data.sum
  [0x3A] ++ printX 2 data.length ++ printX 4 (a &&& 0xFFFF).toNat ++ [0x30, 0x30] ++
    data.flatMap (fun x => printX 2 x.toNat) ++ printX 2 ((256 - csum.toNat) % 256) ++ [0x0A]

/-- The writer sums the bytes of the whole address, the reader those of the printed one. -/
theorem setWidth_address (n a : BitVec 32) :
    (n + (a &&& 0xFFFF) + 0 + (a &&& 0xFFFF).sshiftRight 8).setWidth 8 =
      (n + a + a.sshiftRight 8).setWidth 8 := by
  have hlow : (a &&& 0xFFFF).setWidth 8 = a.setWidth 8 := by
    apply BitVec.eq_of_getLsbD_eq
    intro i hi
    have hmask : (0xFFFF : BitVec 32).getLsbD i = true := by interval_cases i <;> rfl
    simp only [BitVec.getLsbD_setWidth, BitVec.getLsbD_and, hmask, Bool.and_true]
  have hhigh : ((a &&& 0xFFFF).sshiftRight 8).setWidth 8 = (a.sshiftRight 8).setWidth 8 := by
    apply BitVec.eq_of_getLsbD_eq
    intro i hi
    have hmask : (0xFFFF : BitVec 32).getLsbD (8 + i) = true := by interval_cases i <;> rfl
    have hinside : 8 + i < 32 := by omega
    simp only [BitVec.getLsbD_setWidth, BitVec.getLsbD_sshiftRight, if_pos hinside,
      BitVec.getLsbD_and, hmask, Bool.and_true]
  have hle : 8 ≤ 32 := by decide
  rw [BitVec.setWidth_add _ _ hle, BitVec.setWidth_add _ _ hle, BitVec.setWidth_add _ _ hle,
    BitVec.setWidth_add _ _ hle, BitVec.setWidth_add _ _ hle, hlow, hhigh]
  exact congrArg (· + _) (BitVec.add_zero _)

/-- The check digits make the sum of a record zero. -/
theorem add_check (csum : Byte) :
    csum + (BitVec.ofNat 32 ((256 - csum.toNat) % 256)).setWidth 8 = 0 := by
  apply BitVec.eq_of_toNat_eq
  have hlt := csum.isLt
  have hzero : (0 : Byte).toNat = 0 := rfl
  rw [BitVec.toNat_add, BitVec.toNat_setWidth, BitVec.toNat_ofNat, hzero]
  omega

theorem setWidth_ofNat_toNat (x : Byte) : (BitVec.ofNat 32 x.toNat).setWidth 8 = x := by
  apply BitVec.eq_of_toNat_eq
  have hlt := x.isLt
  rw [BitVec.toNat_setWidth, BitVec.toNat_ofNat]
  omega

namespace Loading

variable {signedChar : Bool} {start s s' t : Loading} {bytes : List Byte}

theorem readData_printX (signedChar : Bool) (bytes : List Byte) (lsum : Byte) (text : List Byte) :
    readData signedChar bytes.length lsum
        (bytes.flatMap (fun x => printX 2 x.toNat) ++ text) =
      (bytes, lsum + bytes.sum, text) := by
  induction bytes generalizing lsum with
  | nil => simp [readData]
  | cons x bytes ih =>
      have hx : x.toNat < 16 ^ 2 := x.isLt
      rw [List.length_cons, readData, List.flatMap_cons, List.append_assoc,
        iread_printX signedChar Nat.two_pos hx]
      simp only [setWidth_ofNat_toNat, ih, List.sum_cons, BitVec.add_assoc]

/-- The bytes that are written from a start on. -/
structure Loaded (start : Loading) (bytes : List Byte) (s : Loading) : Prop where
  writes : s.writes = start.writes ++
    bytes.mapIdx fun i data => ((start.p + BitVec.ofNat 32 i).signExtend 64, data)
  p : s.p = start.p + BitVec.ofNat 32 bytes.length
  lenmax : s.lenmax + bytes.length = start.lenmax
  printed : ∀ line residue, HexMessage.checksumError line residue ∈ s.printed →
    HexMessage.checksumError line residue ∈ start.printed

theorem Loaded.nil (s : Loading) : Loaded s [] s where
  writes := (List.append_nil _).symm
  p := (BitVec.add_zero _).symm
  lenmax := rfl
  printed _ _ h := h

theorem ofNat_add_index (p : BitVec 32) (n i : ℕ) :
    p + BitVec.ofNat 32 (i + n) = p + BitVec.ofNat 32 n + BitVec.ofNat 32 i := by
  rw [BitVec.ofNat_add, BitVec.add_assoc, BitVec.add_comm (BitVec.ofNat 32 i)]

theorem Loaded.append {more : List Byte} (hfirst : Loaded start bytes s)
    (hmore : Loaded s more t) : Loaded start (bytes ++ more) t where
  writes := by
    rw [hmore.writes, hfirst.writes, List.mapIdx_append, List.append_assoc, hfirst.p]
    simp only [ofNat_add_index]
  p := by
    rw [hmore.p, hfirst.p, List.length_append, Nat.add_comm, ofNat_add_index]
  lenmax := by
    rw [← hfirst.lenmax, ← hmore.lenmax, List.length_append, Nat.add_assoc,
      Nat.add_comm more.length]
  printed line residue h := hfirst.printed line residue (hmore.printed line residue h)

theorem writeBytes_spec (hroom : bytes.length ≤ s.lenmax) :
    ∃ t, s.writeBytes bytes = some t ∧ Loaded s bytes t ∧ t.a = s.a := by
  induction bytes generalizing s with
  | nil => exact ⟨s, rfl, .nil s, rfl⟩
  | cons data bytes ih =>
      rw [List.length_cons] at hroom
      obtain ⟨first, hfirst⟩ : ∃ first : Loading, first = { s with
        writes := s.writes ++ [(s.p.signExtend 64, data)]
        p := s.p + 1
        lenmax := s.lenmax - 1 } := ⟨_, rfl⟩
      have hroom' : bytes.length ≤ first.lenmax := by
        rw [hfirst]
        exact Nat.le_sub_one_of_lt hroom
      have hone : Loaded s [data] first := by
        rw [hfirst]
        refine ⟨?_, rfl, Nat.sub_add_cancel (Nat.lt_of_lt_of_le (Nat.succ_pos _) hroom),
          fun _ _ h => h⟩
        rw [List.mapIdx_cons, List.mapIdx_nil]
        exact congrArg (fun p : BitVec 32 => s.writes ++ [(p.signExtend 64, data)])
          (BitVec.add_zero s.p).symm
      obtain ⟨t, hwrite, hloaded, ha⟩ := ih hroom'
      refine ⟨t, ?_, hone.append hloaded, ?_⟩
      · rw [writeBytes, if_neg (Nat.ne_of_gt (Nat.lt_of_lt_of_le (Nat.succ_pos _) hroom)),
          ← hfirst]
        exact hwrite
      · rw [ha, hfirst]

/-- A message about addresses is none about a checksum. -/
theorem loaded_print_disjoint (s : Loading) (laddr : BitVec 32) :
    Loaded s [] (s.print [.disjointAddresses laddr s.a s.line]) where
  writes := (List.append_nil _).symm
  p := (BitVec.add_zero _).symm
  lenmax := rfl
  printed line residue h := by
    rcases List.mem_append.mp h with hold | hnew
    · exact hold
    · exact HexMessage.noConfusion (List.mem_singleton.mp hnew)

/-- The bytes of a record of type 0 are written. -/
theorem takeRecord_data (llen laddr : BitVec 32) (hroom : bytes.length ≤ s.lenmax) :
    ∃ t, s.takeRecord llen laddr 0 bytes = some t ∧ Loaded s bytes t := by
  obtain ⟨first, hfirst, hloaded⟩ : ∃ first,
      (if s.a ≠ -1 ∧ laddr ≠ s.a then s.print [.disjointAddresses laddr s.a s.line] else s) =
        first ∧ Loaded s [] first := by
    split_ifs
    · exact ⟨_, rfl, loaded_print_disjoint s laddr⟩
    · exact ⟨s, rfl, .nil s⟩
  have hroom' : bytes.length ≤ first.lenmax := by
    have hsame := hloaded.lenmax
    rw [List.length_nil, Nat.add_zero] at hsame
    rw [hsame]
    exact hroom
  obtain ⟨t, hwrite, hbytes, -⟩ := writeBytes_spec hroom'
  refine ⟨{ t with a := laddr + llen }, ?_, ?_⟩
  · rw [takeRecord, if_neg (by decide), if_neg (fun h => absurd h.1 (by decide)), if_pos rfl,
      hfirst]
    simp only [hwrite, Option.bind_eq_bind, Option.bind_some]
  · have hall := hloaded.append hbytes
    exact ⟨hall.writes, hall.p, hall.lenmax, hall.printed⟩

/-- What is behind the colon of a record. -/
theorem readRecord_recordText (signedChar : Bool) (a : BitVec 32) (hlen : bytes.length ≤ 32)
    (hroom : bytes.length ≤ s.lenmax) :
    ∃ t, Loaded s bytes t ∧ ∀ rest, s.readRecord signedChar
      ((recordText a bytes ++ rest).tail) = some (t, 0x0A :: rest) := by
  obtain ⟨t, htake, hloaded⟩ :=
    takeRecord_data (BitVec.ofNat 32 bytes.length) (a &&& 0xFFFF) hroom
  refine ⟨t, hloaded, fun rest => ?_⟩
  set csum : Byte :=
    (BitVec.ofNat 32 bytes.length + a + a.sshiftRight 8).setWidth 8 + bytes.sum
  have htext : (recordText a bytes ++ rest).tail = printX 2 bytes.length ++
      (printX 4 (a &&& 0xFFFF).toNat ++ (printX 2 0 ++
        (bytes.flatMap (fun x => printX 2 x.toNat) ++
          (printX 2 ((256 - csum.toNat) % 256) ++ 0x0A :: rest)))) := by
    have htype : printX 2 0 = [0x30, 0x30] := rfl
    simp only [recordText, htype, List.append_assoc, List.cons_append, List.nil_append,
      List.tail_cons]
    rfl
  have hlow : (a &&& 0xFFFF).toNat < 16 ^ 4 := by
    rw [BitVec.toNat_and]
    exact Nat.lt_succ_of_le Nat.and_le_right
  have hladdr : BitVec.ofNat 32 (a &&& 0xFFFF).toNat = a &&& 0xFFFF := BitVec.ofNat_toNat 32 _
  have hllen : (BitVec.ofNat 32 bytes.length).toInt = bytes.length := by
    rw [BitVec.toInt_eq_toNat_of_lt (by rw [BitVec.toNat_ofNat]; omega), BitVec.toNat_ofNat,
      Nat.mod_eq_of_lt (by omega)]
  have hcheck : (256 - csum.toNat) % 256 < 16 ^ 2 := Nat.mod_lt _ (by decide)
  have htypeValue : BitVec.ofNat 32 0 = 0 := rfl
  rw [htext, readRecord]
  simp only [iread_printX signedChar Nat.two_pos (show bytes.length < 16 ^ 2 by omega),
    iread_printX signedChar (Nat.succ_pos 3) hlow, hladdr,
    iread_printX signedChar Nat.two_pos (show 0 < 16 ^ 2 by decide), htypeValue, hllen,
    Int.toNat_natCast, readData_printX, iread_printX signedChar Nat.two_pos hcheck,
    setWidth_address]
  rw [if_neg (by omega), add_check]
  simp only [ne_eq, not_true_eq_false, if_false, htake, Option.map_some]

theorem readerLoop_cons_of_ne {c : Byte} (hne : c ≠ 0x3A) (text : List Byte) :
    readerLoop signedChar s (c :: text) =
      readerLoop signedChar (if c = 0x0A then { s with line := s.line + 1 } else s) text := by
  rw [readerLoop, if_pos hne]

theorem readerLoop_record {text rest : List Byte}
    (hrecord : s.readRecord signedChar text = some (t, rest)) :
    readerLoop signedChar s (0x3A :: text) = readerLoop signedChar t rest := by
  have hplain : (if (0x3A : Byte) = 0x0A then { s with line := s.line + 1 } else s) = s :=
    if_neg (by decide)
  rw [readerLoop, if_neg (not_not_intro rfl)]
  split
  · rename_i hnone
    rw [hplain, hrecord] at hnone
    exact absurd hnone (Option.some_ne_none _)
  · rename_i hsome
    rw [hplain, hrecord, Option.some.injEq, Prod.mk.injEq] at hsome
    rw [hsome.1, hsome.2]

/-- The loop takes a record and the end of its line. -/
theorem readerLoop_recordText (signedChar : Bool) (a : BitVec 32) (hlen : bytes.length ≤ 32)
    (hroom : bytes.length ≤ s.lenmax) :
    ∃ t, Loaded s bytes t ∧ ∀ rest, readerLoop signedChar s (recordText a bytes ++ rest) =
      readerLoop signedChar t rest := by
  obtain ⟨t, hloaded, hrecord⟩ := readRecord_recordText signedChar a hlen hroom
  refine ⟨{ t with line := t.line + 1 },
    ⟨hloaded.writes, hloaded.p, hloaded.lenmax, hloaded.printed⟩, fun rest => ?_⟩
  have hcolon : recordText a bytes ++ rest = 0x3A :: (recordText a bytes ++ rest).tail := rfl
  rw [hcolon, readerLoop_record (hrecord rest), readerLoop_cons_of_ne (by decide), if_pos rfl]

end Loading

/-! ## All records -/

namespace Cbgihex

variable {o : Cbgihex} {pending : List Byte}

/-- The bytes in `opd` that wait for their record. -/
structure Buffered (o : Cbgihex) (pending : List Byte) : Prop where
  p : o.p = BitVec.ofNat 32 pending.length
  lt : pending.length < 32
  opd : (List.range pending.length).map o.opd = pending

/-- The record that is printed when `p` counts the bytes in `opd`. -/
theorem opfl_spec (hp : o.p = BitVec.ofNat 32 pending.length) (hle : pending.length ≤ 32)
    (hopd : (List.range pending.length).map o.opd = pending) :
    ∃ o', o.opfl = some (o', if pending = [] then [] else recordText o.a pending) ∧
      Buffered o' [] := by
  by_cases hempty : pending = []
  · rw [if_pos hempty]
    rw [hempty] at hp
    exact ⟨o, if_pos hp, hp, Nat.succ_pos 31, rfl⟩
  · have hpos : 0 < pending.length := List.length_pos_iff.mpr hempty
    have htoNat : o.p.toNat = pending.length := by
      rw [hp, BitVec.toNat_ofNat, Nat.mod_eq_of_lt (by omega)]
    have hne : o.p ≠ 0 := by
      intro hzero
      rw [hzero] at htoNat
      exact hpos.ne htoNat
    have htoInt : o.p.toInt = pending.length := by
      rw [BitVec.toInt_eq_toNat_of_lt (by omega), htoNat]
    refine ⟨{ o with a := o.a + o.p, p := 0 }, ?_, rfl, Nat.succ_pos 31, rfl⟩
    rw [opfl, if_neg hne, if_neg (by omega), if_neg hempty]
    simp only [htoInt, Int.toNat_natCast, hopd, htoNat, recordText]
    rw [hp]

/-- A byte is put behind those that wait. -/
theorem map_opd_update (hopd : (List.range pending.length).map o.opd = pending) (x : Byte) :
    (List.range (pending ++ [x]).length).map (Function.update o.opd pending.length x) =
      pending ++ [x] := by
  have hsame : (List.range pending.length).map (Function.update o.opd pending.length x) =
      (List.range pending.length).map o.opd :=
    List.map_congr_left fun i hi =>
      Function.update_of_ne (Nat.ne_of_lt (List.mem_range.mp hi)) x o.opd
  rw [List.length_append, List.length_singleton, List.range_succ, List.map_append, hsame, hopd,
    List.map_singleton, Function.update_self]

/-- A byte either waits or completes a record of 32. -/
theorem opbyte_spec (hbuffered : Buffered o pending) (x : Byte) :
    ∃ o' a, (o.opbyte x = some (o', []) ∧ Buffered o' (pending ++ [x])) ∨
      (o.opbyte x = some (o', recordText a (pending ++ [x])) ∧ (pending ++ [x]).length ≤ 32 ∧
        Buffered o' []) := by
  have hlt := hbuffered.lt
  have htoNat : o.p.toNat = pending.length := by
    rw [hbuffered.p, BitVec.toNat_ofNat, Nat.mod_eq_of_lt (by omega)]
  have hlength : (pending ++ [x]).length = pending.length + 1 := List.length_append
  have hp : o.p + 1 = BitVec.ofNat 32 (pending ++ [x]).length := by
    rw [hbuffered.p, hlength, BitVec.ofNat_add]
    rfl
  have htoInt : (o.p + 1).toInt = (pending ++ [x]).length := by
    rw [hp, BitVec.toInt_eq_toNat_of_lt (by rw [BitVec.toNat_ofNat]; omega), BitVec.toNat_ofNat,
      Nat.mod_eq_of_lt (by omega)]
  have hopd := map_opd_update hbuffered.opd x
  rw [opbyte, if_pos (by omega)]
  simp only [htoInt, htoNat]
  by_cases hfull : (32 : ℤ) ≤ (pending ++ [x]).length
  · have hne : pending ++ [x] ≠ [] :=
      List.append_ne_nil_of_right_ne_nil pending (List.cons_ne_nil x [])
    obtain ⟨o', hopfl, hnext⟩ := @opfl_spec
      { o with opd := Function.update o.opd pending.length x, p := o.p + 1 } (pending ++ [x])
      hp (by omega) hopd
    rw [if_neg hne] at hopfl
    exact ⟨o', _, Or.inr ⟨by rw [if_pos hfull, hopfl], by omega, hnext⟩⟩
  · exact ⟨_, 0, Or.inl ⟨if_neg hfull, hp, by omega, hopd⟩⟩

/-- What is dumped is read back, with the bytes that waited before it. -/
theorem dump_spec (signedChar : Bool) (hbuffered : Buffered o pending) (bytes : List Byte) :
    ∃ o' text, o.dump bytes = some (o', text) ∧
      ∀ s : Loading, (pending ++ bytes).length ≤ s.lenmax →
        ∃ t, Loading.readerLoop signedChar s text = some t ∧
          Loading.Loaded s (pending ++ bytes) t := by
  induction bytes generalizing o pending with
  | nil =>
      obtain ⟨o', hopfl, -⟩ := opfl_spec hbuffered.p hbuffered.lt.le hbuffered.opd
      refine ⟨o', _, hopfl, fun s hroom => ?_⟩
      rw [List.append_nil] at hroom ⊢
      by_cases hempty : pending = []
      · rw [if_pos hempty, hempty]
        exact ⟨s, by rw [Loading.readerLoop], .nil s⟩
      · obtain ⟨t, hloaded, hloop⟩ :=
          Loading.readerLoop_recordText signedChar o.a hbuffered.lt.le hroom
        have hend := hloop []
        rw [List.append_nil, Loading.readerLoop.eq_def _ _ []] at hend
        rw [if_neg hempty]
        exact ⟨t, hend, hloaded⟩
  | cons x bytes ih =>
      have hsplit : pending ++ x :: bytes = pending ++ [x] ++ bytes := by
        rw [List.append_assoc, List.singleton_append]
      obtain ⟨o', a, ⟨hopbyte, hnext⟩ | ⟨hopbyte, hle, hnext⟩⟩ := opbyte_spec hbuffered x
      · obtain ⟨o'', text, hdump, hread⟩ := ih hnext
        refine ⟨o'', text, ?_, ?_⟩
        · simp only [dump, hopbyte, Option.bind_eq_bind, Option.bind_some, hdump, List.nil_append]
        · rw [hsplit]
          exact hread
      · obtain ⟨o'', text, hdump, hread⟩ := ih hnext
        refine ⟨o'', recordText a (pending ++ [x]) ++ text, ?_, fun s hroom => ?_⟩
        · simp only [dump, hopbyte, Option.bind_eq_bind, Option.bind_some, hdump]
        · rw [hsplit, List.length_append] at hroom
          obtain ⟨middle, hloaded, hloop⟩ := @Loading.readerLoop_recordText s (pending ++ [x])
            signedChar a hle (Nat.le_of_add_right_le hroom)
          have hleft := hloaded.lenmax
          obtain ⟨t, hend, hrest⟩ := hread middle (by rw [List.nil_append]; omega)
          refine ⟨t, (hloop text).trans hend, ?_⟩
          rw [hsplit]
          exact hloaded.append hrest

/-- What is read back of a dump: the bytes that waited and then the others. -/
theorem reader_dump (signedChar : Bool) (hbuffered : Buffered o pending) (reader : Cbgihex)
    (bytes : List Byte) (lenmax : ℕ) (hroom : (pending ++ bytes).length ≤ lenmax) :
    ∃ o' text s, o.dump bytes = some (o', text) ∧ reader.reader signedChar lenmax text = some s ∧
      s.writes = (pending ++ bytes).mapIdx
        (fun i data => ((reader.p + BitVec.ofNat 32 i).signExtend 64, data)) ∧
      ∀ line residue, HexMessage.checksumError line residue ∉ s.printed := by
  obtain ⟨o', text, hdump, hread⟩ := dump_spec signedChar hbuffered bytes
  obtain ⟨s, hreader, hloaded⟩ := hread
    { a := reader.a, p := reader.p, lenmax := lenmax, line := 1, writes := [], printed := [] } hroom
  exact ⟨o', text, s, hdump, hreader, hloaded.writes, fun line residue h =>
    List.not_mem_nil (hloaded.printed line residue h)⟩

/-- The bytes of `opd` that `p` counts before anything is written. -/
theorem buffered_opd (hlt : o.p.toNat < 32) :
    Buffered o ((List.range o.p.toNat).map o.opd) where
  p := by rw [List.length_map, List.length_range, BitVec.ofNat_toNat, BitVec.setWidth_eq]
  lt := by rwa [List.length_map, List.length_range]
  opd := by rw [List.length_map, List.length_range]

end Cbgihex

theorem signExtend_index {i : ℕ} (hi : i < 2 ^ 31) :
    (0 + BitVec.ofNat 32 i).signExtend 64 = BitVec.ofNat 64 i := by
  have hzero : 0 + BitVec.ofNat 32 i = BitVec.ofNat 32 i := BitVec.zero_add _
  have hmsb : (BitVec.ofNat 32 i).msb = false := by
    rw [BitVec.msb_eq_false_iff_two_mul_lt, BitVec.toNat_ofNat]
    omega
  rw [hzero, BitVec.signExtend_eq_setWidth_of_msb_false hmsb]
  apply BitVec.eq_of_toNat_eq
  rw [BitVec.toNat_setWidth, BitVec.toNat_ofNat, BitVec.toNat_ofNat]
  omega

/-- The round trip works from objects whose `p` happened to be zero, and from no others. -/
theorem roundTrip_iff (signedChar : Bool) (writer reader : Cbgihex) :
    RoundTrip signedChar writer reader ↔ writer.p = 0 ∧ reader.p = 0 := by
  constructor
  · intro htrip
    obtain ⟨o, text, s, hdump, hread, hwrites, -⟩ := htrip [0] (by decide) 32 (by decide)
    have hlt : writer.p.toNat < 32 := by
      by_contra hge
      have hnone : writer.dump [0] = none := by
        rw [Cbgihex.dump, Cbgihex.opbyte, if_neg hge]
        rfl
      rw [hnone] at hdump
      exact Option.some_ne_none _ hdump.symm
    obtain ⟨o', text', s', hdump', hread', hwrites', -⟩ := Cbgihex.reader_dump signedChar
      (Cbgihex.buffered_opd hlt) reader [0] 32
      (by rw [List.length_append, List.length_map, List.length_range]; exact hlt)
    rw [hdump, Option.some.injEq, Prod.mk.injEq] at hdump'
    rw [← hdump'.2, hread, Option.some.injEq] at hread'
    rw [← hread', hwrites] at hwrites'
    have hcount := congrArg List.length hwrites'
    rw [List.length_mapIdx, List.length_mapIdx, List.length_append, List.length_map,
      List.length_range, List.length_singleton] at hcount
    have hwriter : writer.p = 0 := BitVec.eq_of_toNat_eq (Nat.right_eq_add.mp (by omega))
    refine ⟨hwriter, ?_⟩
    rw [hwriter] at hwrites'
    have hfirst : BitVec.ofNat 64 0 = (reader.p + BitVec.ofNat 32 0).signExtend 64 :=
      (Prod.mk.inj (List.cons.inj hwrites').1).1
    have hsum : reader.p + BitVec.ofNat 32 0 = reader.p := BitVec.add_zero _
    have htoInt := congrArg BitVec.toInt hfirst
    rw [hsum, BitVec.toInt_signExtend_of_le (by decide)] at htoInt
    exact BitVec.eq_of_toInt_eq htoInt.symm
  · rintro ⟨hwriter, hreader⟩ bytes hlength lenmax hroom
    have hbuffered : Cbgihex.Buffered writer [] := ⟨hwriter, Nat.succ_pos 31, rfl⟩
    obtain ⟨o, text, s, hdump, hread, hwrites, hsums⟩ :=
      Cbgihex.reader_dump signedChar hbuffered reader bytes lenmax hroom
    refine ⟨o, text, s, hdump, hread, ?_, hsums⟩
    rw [hwrites, hreader, List.nil_append]
    apply List.ext_getElem
    · rw [List.length_mapIdx, List.length_mapIdx]
    · intro i hi _
      rw [List.length_mapIdx] at hi
      rw [List.getElem_mapIdx, List.getElem_mapIdx, signExtend_index (hi.trans hlength)]

/-- Where the member `p` of the writer held 32 before, the first byte is put outside `opd`. -/
theorem not_roundTrip :
    ¬∀ (signedChar : Bool) (p p' : BitVec 32) (opd opd' : ℕ → Byte),
      RoundTrip signedChar (.new p opd) (.new p' opd') := by
  intro hclaim
  obtain ⟨o, text, s, hdump, -⟩ :=
    hclaim true 32 0 (fun _ => 0) (fun _ => 0) [0] (by decide) 1 (by decide)
  exact Option.some_ne_none _ hdump.symm

end Prazor.Memory
