import Prazor.Core.EscapeCode
import Prazor.Core.Payload

/-!
# Packets of the remote serial protocol

A packet is `$`, its characters, `#` and two digits of a checksum.  `putPkt` sends one until
the peer answers `+`.  `getPkt` passes over what is no packet, answers `-` to a packet with
another checksum, and `+` to the one it returns.

A connection delivers some characters and takes some, and fails after these; one that is not
open delivers and takes none.  `none` is the result `false`.
-/

namespace Prazor.Gdbrsp

/-! ## The utilities -/

/-- `Utils::char2Hex`; its -1 is 255 in a `uint8_t`. -/
def char2Hex (c : Byte) : Byte :=
  if 0x61 ≤ c ∧ c ≤ 0x66 then c - 0x61 + 10
  else if 0x30 ≤ c ∧ c ≤ 0x39 then c - 0x30
  else if 0x41 ≤ c ∧ c ≤ 0x46 then c - 0x41 + 10
  else 255

/-- `Utils::hex2Char` -/
def hex2Char (d : Byte) : Byte :=
  if d < 10 then 0x30 + d else if d < 16 then 0x57 + d else 0

/-- The loop of `Utils::rspUnescape`, which writes the buffer it reads; `none` is a read
outside it. -/
def unescapeLoop (len : ℕ) (buf : List Byte) (fromOffset toOffset : ℕ) :
    Option (List Byte × ℕ) :=
  if fromOffset < len then
    if buf[fromOffset]? = some 0x7D then
      buf[fromOffset + 1]?.bind fun ch =>
        unescapeLoop len (buf.set toOffset (ch ^^^ 0x20)) (fromOffset + 2) (toOffset + 1)
    else
      buf[fromOffset]?.bind fun ch =>
        unescapeLoop len (buf.set toOffset ch) (fromOffset + 1) (toOffset + 1)
  else some (buf, toOffset)
termination_by len - fromOffset

/-- `Utils::rspUnescape` -/
def rspUnescape (buf : List Byte) (len : ℕ) : Option (List Byte × ℕ) :=
  unescapeLoop len buf 0 0

/-! ## Connections -/

/-- A packet; `bufSize` is the length of its buffer. -/
structure RspPacket where
  data : List Byte
  len : ℕ

/-- What was written, and how many characters are still taken. -/
structure Outgoing where
  sent : List Byte
  room : ℕ

/-- The two directions of a connection; `incoming` is what is still delivered. -/
structure RspConnection where
  incoming : List Byte
  outgoing : Outgoing

/-- `putRspChar` -/
def putRspChar (out : Outgoing) (c : Byte) : Option Outgoing :=
  if 0 < out.room then some ⟨out.sent ++ [c], out.room - 1⟩ else none

/-- The characters that `putPkt` escapes. -/
def isEscaped (ch : Byte) : Bool := ch = 0x24 || ch = 0x23 || ch = 0x2A || ch = 0x7D

/-! ## `putPkt` -/

/-- The loop over the body of a packet, with the checksum. -/
def putBody (out : Outgoing) (checksum : Byte) : List Byte → Option (Outgoing × Byte)
  | [] => some (out, checksum)
  | ch :: rest =>
      if isEscaped ch then
        (putRspChar out 0x7D).bind fun out =>
          (putRspChar out (ch ^^^ 0x20)).bind fun out =>
            putBody out (checksum + 0x7D + (ch ^^^ 0x20)) rest
      else (putRspChar out ch).bind fun out => putBody out (checksum + ch) rest

/-- One transmission. -/
def putOnce (out : Outgoing) (body : List Byte) : Option Outgoing :=
  (putRspChar out 0x24).bind fun out =>
    (putBody out 0 body).bind fun (out, checksum) =>
      (putRspChar out 0x23).bind fun out =>
        (putRspChar out (hex2Char (checksum >>> 4))).bind fun out =>
          putRspChar out (hex2Char (checksum % 16))

/-- The loop that waits for `+`. -/
def putLoop (body : List Byte) : List Byte → Outgoing → Option RspConnection
  | [], _ => none
  | ch :: rest, out =>
      (putOnce out body).bind fun out =>
        if ch = 0x2B then some ⟨rest, out⟩ else putLoop body rest out

/-- `putPkt` -/
def putPkt (conn : RspConnection) (pkt : RspPacket) : Option RspConnection :=
  putLoop (pkt.data.take pkt.len) conn.incoming conn.outgoing

/-! ## `getPkt` -/

/-- The loop that waits for `$`: what follows it. -/
def startLoop : List Byte → Option (List Byte)
  | [] => none
  | ch :: rest => if ch = 0x24 then some rest else startLoop rest

/-- Where the loop over the body stops: at a `#`, or at the end of the buffer. -/
structure Body where
  data : List Byte
  checksum : Byte
  count : ℕ
  ended : Bool
  rest : List Byte

/-- The loop over the body.  A `$` begins the packet again. -/
def bodyLoop (bufSize : ℕ) :
    (incoming data : List Byte) → (checksum : Byte) → (count : ℕ) → Option Body
  | [], data, checksum, count =>
      if count < bufSize - 1 then none else some ⟨data, checksum, count, false, []⟩
  | ch :: rest, data, checksum, count =>
      if count < bufSize - 1 then
        if ch = 0x24 then bodyLoop bufSize rest data 0 0
        else if ch = 0x23 then some ⟨data, checksum, count, true, rest⟩
        else bodyLoop bufSize rest (data.set count ch) (checksum + ch) (count + 1)
      else some ⟨data, checksum, count, false, ch :: rest⟩

theorem length_of_startLoop {incoming rest : List Byte}
    (hstart : startLoop incoming = some rest) : rest.length < incoming.length := by
  induction incoming with
  | nil => cases hstart
  | cons ch incoming ih =>
      rw [startLoop] at hstart
      split at hstart
      case isTrue => cases hstart; exact Nat.lt_succ_self _
      case isFalse => exact Nat.lt_succ_of_lt (ih hstart)

theorem length_of_bodyLoop {bufSize : ℕ} {incoming data : List Byte} {checksum : Byte}
    {count : ℕ} {body : Body}
    (hbody : bodyLoop bufSize incoming data checksum count = some body) :
    body.rest.length ≤ incoming.length := by
  induction incoming generalizing data checksum count with
  | nil =>
      rw [bodyLoop] at hbody
      split at hbody
      · cases hbody
      · cases hbody; exact Nat.le_refl _
  | cons ch incoming ih =>
      rw [bodyLoop] at hbody
      split_ifs at hbody
      · exact Nat.le_succ_of_le (ih hbody)
      · cases hbody; exact Nat.le_succ _
      · exact Nat.le_succ_of_le (ih hbody)
      · cases hbody; exact Nat.le_refl _

/-- The loop of `getPkt`, over the buffer of the packet. -/
def getLoop (incoming : List Byte) (out : Outgoing) (data : List Byte) :
    Option (RspConnection × RspPacket) :=
  match _hstart : startLoop incoming with
  | none => none
  | some start =>
      match _hbody : bodyLoop data.length start data 0 0 with
      | none => none
      | some ⟨data, checksum, count, ended, rest⟩ =>
          let data := data.set count 0
          if ended then
            match rest with
            | first :: second :: rest =>
                if checksum ≠ (char2Hex first <<< 4) + char2Hex second then
                  (putRspChar out 0x2D).bind fun out => getLoop rest out data
                else (putRspChar out 0x2B).map fun out => (⟨rest, out⟩, ⟨data, count⟩)
            | _ => none
          else getLoop rest out data
termination_by incoming.length
decreasing_by
  all_goals
    have hless := length_of_startLoop _hstart
    have hle := length_of_bodyLoop _hbody
    simp only [List.length_cons] at hle
    omega

/-- `getPkt` -/
def getPkt (conn : RspConnection) (pkt : RspPacket) : Option (RspConnection × RspPacket) :=
  getLoop conn.incoming conn.outgoing pkt.data

end Prazor.Gdbrsp
