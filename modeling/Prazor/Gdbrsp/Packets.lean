import Prazor.Gdbrsp.RspConnection

/-!
# Delivery of packets

The packets on a connection, which `getPkt` receives and `putPkt` sends.  Whatever a link does
to some transmissions, as long as each of them still is a packet with a wrong checksum and a
later one arrives intact, the receiver refuses exactly these, the sender repeats the packet
exactly as often, and what is received is what was sent.
-/

namespace Prazor.Gdbrsp

/-! ## The escape code -/

/-- The escape code of the protocol. -/
def rspCode : EscapeCode Byte where
  kept := isEscaped
  mark := 0x7D
  disguise ch := ch ^^^ 0x20
  kept_mark := rfl
  disguise_disguise := fun ch => by rw [BitVec.xor_assoc, BitVec.xor_self, BitVec.xor_zero]
  kept_disguise := by decide

theorem set_after {done gap used tail : List Byte} (hused : used ≠ []) (ch : Byte) :
    (done ++ gap ++ used ++ tail).set done.length ch =
      (done ++ [ch]) ++ (gap ++ used).tail ++ tail := by
  obtain ⟨first, others, heq⟩ := List.exists_cons_of_ne_nil
    (List.append_ne_nil_of_right_ne_nil gap hused)
  calc (done ++ gap ++ used ++ tail).set done.length ch
      = (done ++ (gap ++ used ++ tail)).set done.length ch := by simp only [List.append_assoc]
    _ = done ++ (gap ++ used ++ tail).set 0 ch := by
      rw [List.set_append_right _ _ (Nat.le_refl _), Nat.sub_self]
    _ = (done ++ [ch]) ++ (gap ++ used).tail ++ tail := by
      rw [heq]
      simp

/-- The loop puts a payload in the place of its escaped form.  Nothing that is still to be read
has been written. -/
theorem unescapeLoop_escape (payload done gap tail : List Byte) :
    ∃ junk, unescapeLoop (done ++ gap ++ rspCode.escape payload).length
        (done ++ gap ++ rspCode.escape payload ++ tail) (done ++ gap).length done.length =
      some (done ++ payload ++ junk ++ tail, done.length + payload.length) := by
  induction payload generalizing done gap with
  | nil =>
      refine ⟨gap, ?_⟩
      rw [unescapeLoop, if_neg (by simp)]
      simp
  | cons ch payload ih =>
      -- the turn that reads `used` for `ch`
      have hturn : ∀ used : List Byte, used ≠ [] → ∃ junk,
          unescapeLoop (done ++ gap ++ (used ++ rspCode.escape payload)).length
            ((done ++ gap ++ (used ++ rspCode.escape payload) ++ tail).set done.length ch)
            ((done ++ gap).length + used.length) (done.length + 1) =
          some (done ++ (ch :: payload) ++ junk ++ tail,
            done.length + (ch :: payload).length) := by
        intro used hused
        obtain ⟨junk, hjunk⟩ := ih (done ++ [ch]) (gap ++ used).tail
        have hpos : 0 < used.length := List.length_pos_iff.mpr hused
        refine ⟨junk, ?_⟩
        rw [show done ++ gap ++ (used ++ rspCode.escape payload) ++ tail =
            done ++ gap ++ used ++ (rspCode.escape payload ++ tail) by simp, set_after hused]
        convert hjunk using 2
        all_goals
          simp only [List.length_append, List.length_cons, List.length_nil, List.length_tail,
            List.append_assoc, List.cons_append, List.nil_append,
            Prod.mk.injEq, true_and]
        all_goals omega
      have hread : ∀ k, (done ++ gap ++ rspCode.escape (ch :: payload) ++
          tail)[(done ++ gap).length + k]? =
            (rspCode.escapeOne ch ++ (rspCode.escape payload ++ tail))[k]? := by
        intro k
        rw [rspCode.escape_cons, List.append_assoc,
          List.getElem?_append_right (Nat.le_add_right _ _), Nat.add_sub_cancel_left,
          List.append_assoc]
      rw [unescapeLoop]
      by_cases hkept : isEscaped ch = true
      · have hone : rspCode.escapeOne ch = [0x7D, ch ^^^ 0x20] := if_pos hkept
        have hfirst := hread 0
        have hsecond := hread 1
        rw [hone] at hfirst hsecond
        rw [if_pos (by rw [rspCode.escape_cons, hone]; simp), if_pos (by simpa using hfirst)]
        rw [hsecond]
        have hch : ch ^^^ 0x20 ^^^ 0x20 = ch := rspCode.disguise_disguise ch
        obtain ⟨junk, hjunk⟩ := hturn [0x7D, ch ^^^ 0x20] (List.cons_ne_nil _ _)
        refine ⟨junk, ?_⟩
        rw [rspCode.escape_cons, hone]
        simpa [hch] using hjunk
      · have hone : rspCode.escapeOne ch = [ch] := if_neg hkept
        have hfirst := hread 0
        rw [hone] at hfirst
        have hplain : ch ≠ 0x7D := by
          intro heq
          rw [heq] at hkept
          exact hkept rfl
        obtain ⟨junk, hjunk⟩ := hturn [ch] (List.cons_ne_nil _ _)
        refine ⟨junk, ?_⟩
        rw [if_pos (by rw [rspCode.escape_cons, hone]; simp),
          if_neg (by rw [← Nat.add_zero (done ++ gap).length, hfirst]; simpa using hplain)]
        rw [← Nat.add_zero (done ++ gap).length, hfirst]
        rw [rspCode.escape_cons, hone]
        simpa using hjunk

/-- `rspUnescape` leaves the payload at the beginning of the buffer. -/
theorem rspUnescape_escape (payload tail : List Byte) :
    ∃ junk, rspUnescape (rspCode.escape payload ++ tail) (rspCode.escape payload).length =
      some (payload ++ junk ++ tail, payload.length) := by
  simpa [rspUnescape] using unescapeLoop_escape payload [] [] tail

/-! ## What is sent -/

/-- The connection after some characters, as long as it takes them. -/
def Outgoing.putAll (out : Outgoing) (text : List Byte) : Option Outgoing :=
  if text.length ≤ out.room then some ⟨out.sent ++ text, out.room - text.length⟩ else none

theorem Outgoing.putAll_nil (out : Outgoing) : out.putAll [] = some out := by
  rw [putAll, List.length_nil, if_pos (Nat.zero_le _), List.append_nil, Nat.sub_zero]

theorem Outgoing.putAll_append (out : Outgoing) (first second : List Byte) :
    (out.putAll first).bind (·.putAll second) = out.putAll (first ++ second) := by
  simp only [putAll, List.length_append]
  by_cases hfirst : first.length ≤ out.room
  · rw [if_pos hfirst, Option.bind_some]
    by_cases hboth : first.length + second.length ≤ out.room
    · rw [if_pos hboth, if_pos (Nat.le_sub_of_add_le' hboth), List.append_assoc, Nat.sub_sub]
    · rw [if_neg hboth, if_neg (fun hle => hboth (Nat.add_le_of_le_sub' hfirst hle))]
  · rw [if_neg hfirst, if_neg (by omega), Option.bind_none]

theorem putRspChar_eq (out : Outgoing) (c : Byte) : putRspChar out c = out.putAll [c] := rfl

/-- The characters that the checksum is followed from, and the checksum. -/
theorem putBody_eq (out : Outgoing) (checksum : Byte) (body : List Byte) :
    putBody out checksum body =
      (out.putAll (rspCode.escape body)).map (·, checksum + (rspCode.escape body).sum) := by
  induction body generalizing out checksum with
  | nil =>
      rw [putBody, rspCode.escape_nil, Outgoing.putAll_nil, List.sum_nil, Option.map_some]
      exact congrArg (fun sum => some (out, sum)) (BitVec.add_zero checksum).symm
  | cons ch body ih =>
      rw [putBody, rspCode.escape_cons, ← Outgoing.putAll_append, Option.map_bind]
      by_cases hkept : isEscaped ch = true
      · have hone : rspCode.escapeOne ch = [0x7D] ++ [ch ^^^ 0x20] := if_pos hkept
        rw [if_pos hkept, hone, ← Outgoing.putAll_append, Option.bind_assoc]
        simp only [putRspChar_eq, ih, List.sum_append, List.sum_singleton, BitVec.add_assoc]
        rfl
      · have hone : rspCode.escapeOne ch = [ch] := if_neg hkept
        rw [if_neg hkept, hone]
        simp only [putRspChar_eq, ih, List.sum_append, List.sum_singleton, BitVec.add_assoc]
        rfl

/-- The characters of a packet on the connection. -/
def packet (text : List Byte) : List Byte :=
  0x24 :: text ++ [0x23, hex2Char (text.sum >>> 4), hex2Char (text.sum % 16)]

/-- One transmission is the packet of the escaped body. -/
theorem putOnce_eq (out : Outgoing) (body : List Byte) :
    putOnce out body = out.putAll (packet (rspCode.escape body)) := by
  have hparts : packet (rspCode.escape body) =
      ([0x24] : List Byte) ++ (rspCode.escape body ++ (([0x23] : List Byte) ++
        ([hex2Char ((rspCode.escape body).sum >>> 4)] ++
          [hex2Char ((rspCode.escape body).sum % 16)]))) := rfl
  rw [putOnce, hparts]
  simp only [← Outgoing.putAll_append, putRspChar_eq, putBody_eq, Option.bind_map,
    Function.comp_def, zero_add]

/-- `n` transmissions. -/
def packets (body : List Byte) (n : ℕ) : List Byte :=
  (List.replicate n (packet (rspCode.escape body))).flatten

/-- `putPkt` ends when the peer answers `+`, and the packet was sent once for each answer. -/
theorem putLoop_iff {body answers : List Byte} {out : Outgoing} {conn : RspConnection} :
    putLoop body answers out = some conn ↔
      ∃ refusals : List Byte, 0x2B ∉ refusals ∧ answers = refusals ++ 0x2B :: conn.incoming ∧
        out.putAll (packets body (refusals.length + 1)) = some conn.outgoing := by
  induction answers generalizing out with
  | nil => simp [putLoop]
  | cons ch answers ih =>
      rw [putLoop, putOnce_eq]
      constructor
      · intro hput
        obtain ⟨next, hnext, hput⟩ := Option.bind_eq_some_iff.mp hput
        split at hput
        case isTrue hch =>
          cases hput
          refine ⟨[], List.not_mem_nil, by rw [hch]; rfl, ?_⟩
          simpa [packets] using hnext
        case isFalse hch =>
          obtain ⟨refusals, hnone, heq, hsent⟩ := ih.mp hput
          refine ⟨ch :: refusals, ?_, by rw [heq]; rfl, ?_⟩
          · rw [List.mem_cons, not_or]
            exact ⟨Ne.symm hch, hnone⟩
          · rw [packets, List.length_cons, List.replicate_succ, List.flatten_cons,
              ← Outgoing.putAll_append, hnext]
            exact hsent
      · rintro ⟨refusals, hnone, heq, hsent⟩
        rw [packets, List.replicate_succ, List.flatten_cons, ← Outgoing.putAll_append] at hsent
        obtain ⟨next, hnext, hsent⟩ := Option.bind_eq_some_iff.mp hsent
        rw [hnext, Option.bind_some]
        cases refusals with
        | nil =>
            rw [List.nil_append, List.cons.injEq] at heq
            rw [if_pos heq.1, heq.2]
            have hlast : next.putAll [] = some conn.outgoing := hsent
            rw [Outgoing.putAll_nil] at hlast
            cases hlast
            rfl
        | cons first refusals =>
            rw [List.cons_append, List.cons.injEq] at heq
            rw [List.mem_cons, not_or] at hnone
            rw [if_neg (by rw [heq.1]; exact Ne.symm hnone.1)]
            exact ih.mpr ⟨refusals, hnone.2, heq.2, hsent⟩

/-! ## What is received -/

/-- Characters that neither begin nor end a packet. -/
def Plain (text : List Byte) : Prop := 0x24 ∉ text ∧ 0x23 ∉ text

/-- The two digits are the checksum of the text. -/
abbrev Checked (text : List Byte) (first second : Byte) : Prop :=
  text.sum = (char2Hex first <<< 4) + char2Hex second

/-- What a receiver makes of the characters that arrive: the packets it refuses, the body that
it returns and the characters that it leaves. -/
inductive Receives (bufSize : ℕ) : List Byte → ℕ → List Byte → List Byte → Prop
  | accepted {text rest : List Byte} {first second : Byte} (hplain : Plain text)
      (hfits : text.length < bufSize - 1) (hchecked : Checked text first second) :
      Receives bufSize (0x24 :: text ++ 0x23 :: first :: second :: rest) 0 text rest
  | noise {ch : Byte} {incoming body rest : List Byte} {n : ℕ} (hch : ch ≠ 0x24)
      (hrest : Receives bufSize incoming n body rest) :
      Receives bufSize (ch :: incoming) n body rest
  | begunAgain {text incoming body rest : List Byte} {n : ℕ} (hplain : Plain text)
      (hfits : text.length < bufSize - 1)
      (hrest : Receives bufSize (0x24 :: incoming) n body rest) :
      Receives bufSize (0x24 :: text ++ 0x24 :: incoming) n body rest
  | refused {text incoming body rest : List Byte} {first second : Byte} {n : ℕ}
      (hplain : Plain text) (hfits : text.length < bufSize - 1)
      (hchecked : ¬Checked text first second) (hrest : Receives bufSize incoming n body rest) :
      Receives bufSize (0x24 :: text ++ 0x23 :: first :: second :: incoming) (n + 1) body rest
  | overrun {text incoming body rest : List Byte} {n : ℕ} (hplain : Plain text)
      (hfull : text.length = bufSize - 1) (hrest : Receives bufSize incoming n body rest) :
      Receives bufSize (0x24 :: text ++ incoming) n body rest

/-- The answers to the packets that are refused and to the one that is not. -/
def answers (n : ℕ) : List Byte := List.replicate n 0x2D ++ [0x2B]

/-- The buffer holds a text and a NUL. -/
def Holds (data text : List Byte) : Prop := ∃ junk, data = text ++ 0 :: junk

theorem startLoop_noise {ch : Byte} (hch : ch ≠ 0x24) (rest : List Byte) :
    startLoop (ch :: rest) = startLoop rest := if_neg hch

/-- Reading plain characters into the buffer. -/
theorem bodyLoop_plain {bufSize : ℕ} {text : List Byte} (hplain : Plain text)
    (before after incoming : List Byte) (checksum : Byte)
    (hfits : before.length + text.length ≤ bufSize - 1)
    (hroom : text.length ≤ after.length) :
    bodyLoop bufSize (text ++ incoming) (before ++ after) checksum before.length =
      bodyLoop bufSize incoming (before ++ text ++ after.drop text.length)
        (checksum + text.sum) (before.length + text.length) := by
  induction text generalizing before after checksum with
  | nil => simp
  | cons ch text ih =>
      obtain ⟨hstart, hend⟩ := hplain
      rw [List.mem_cons, not_or] at hstart hend
      rw [List.length_cons] at hfits hroom
      obtain ⟨old, after, rfl⟩ := List.exists_cons_of_length_pos
        (Nat.lt_of_lt_of_le (Nat.succ_pos _) hroom)
      have hset : (before ++ old :: after).set before.length ch = (before ++ [ch]) ++ after := by
        rw [List.set_append_right _ _ (Nat.le_refl _), Nat.sub_self, List.set_cons_zero,
          List.append_assoc, List.singleton_append]
      have hnext := ih ⟨hstart.2, hend.2⟩ (before ++ [ch]) after (checksum + ch)
        (by rw [List.length_append, List.length_singleton]; omega)
        (Nat.le_of_succ_le_succ hroom)
      rw [List.cons_append, bodyLoop, if_pos (by omega), if_neg (Ne.symm hstart.1),
        if_neg (Ne.symm hend.1), hset]
      rw [List.length_append, List.length_singleton] at hnext
      rw [hnext, List.length_cons, List.drop_succ_cons, List.sum_cons, BitVec.add_assoc,
        Nat.add_assoc, Nat.add_comm 1]
      simp only [List.append_assoc, List.singleton_append]

/-- The loop over the packets, without the equations that its termination rests on. -/
theorem getLoop_eq (incoming : List Byte) (out : Outgoing) (data : List Byte) :
    getLoop incoming out data =
      (startLoop incoming).bind fun start =>
        (bodyLoop data.length start data 0 0).bind fun body =>
          if body.ended then
            match body.rest with
            | first :: second :: rest =>
                if body.checksum ≠ (char2Hex first <<< 4) + char2Hex second then
                  (putRspChar out 0x2D).bind fun out =>
                    getLoop rest out (body.data.set body.count 0)
                else (putRspChar out 0x2B).map fun out =>
                  (⟨rest, out⟩, ⟨body.data.set body.count 0, body.count⟩)
            | _ => none
          else getLoop body.rest out (body.data.set body.count 0) := by
  rw [getLoop]
  split
  case h_1 hnone => rw [hnone, Option.bind_none]
  case h_2 start hstart =>
    rw [hstart, Option.bind_some]
    split
    case h_1 hnone => rw [hnone, Option.bind_none]
    case h_2 data' checksum count ended rest hbody =>
      refine Eq.trans ?_ (congrArg (Option.bind · _) hbody).symm
      cases ended with
      | true => rcases rest with - | ⟨first, - | ⟨second, rest⟩⟩ <;> rfl
      | false => rfl

section Steps

variable {data text : List Byte} {out : Outgoing}

theorem getLoop_noise {ch : Byte} (hch : ch ≠ 0x24) (incoming : List Byte) :
    getLoop (ch :: incoming) out data = getLoop incoming out data := by
  rw [getLoop_eq, startLoop_noise hch, ← getLoop_eq]

/-- The buffer once a text is read. -/
def filled (data text : List Byte) : List Byte := text ++ data.drop text.length

theorem length_filled (hroom : text.length ≤ data.length) :
    (filled data text).length = data.length := by
  rw [filled, List.length_append, List.length_drop, Nat.add_sub_cancel' hroom]

/-- The buffer with the NUL behind the text. -/
theorem holds_filled (hroom : text.length < data.length) :
    Holds ((filled data text).set text.length 0) text := by
  refine ⟨data.drop (text.length + 1), ?_⟩
  rw [filled, List.set_append_right _ _ (Nat.le_refl _), Nat.sub_self,
    List.drop_eq_getElem_cons hroom, List.set_cons_zero]

/-- What follows the start of a packet, once its plain characters are read. -/
theorem getLoop_plain (hplain : Plain text) (hfits : text.length ≤ data.length - 1)
    (incoming : List Byte) :
    bodyLoop data.length (text ++ incoming) data 0 0 =
      bodyLoop data.length incoming (filled data text) text.sum text.length := by
  have hloop := bodyLoop_plain hplain [] data incoming 0
    (by rw [List.length_nil, Nat.zero_add]; exact hfits) (Nat.le_trans hfits (Nat.sub_le _ _))
  rw [List.nil_append, List.length_nil, Nat.zero_add, zero_add] at hloop
  exact hloop

theorem getLoop_packet (hplain : Plain text) (hfits : text.length < data.length - 1)
    (first second : Byte) (incoming : List Byte) :
    getLoop (0x24 :: text ++ 0x23 :: first :: second :: incoming) out data =
      if text.sum ≠ (char2Hex first <<< 4) + char2Hex second then
        (putRspChar out 0x2D).bind fun out =>
          getLoop incoming out ((filled data text).set text.length 0)
      else (putRspChar out 0x2B).map fun out =>
        (⟨incoming, out⟩, ⟨(filled data text).set text.length 0, text.length⟩) := by
  rw [getLoop_eq, List.cons_append, startLoop, if_pos rfl, Option.bind_some,
    getLoop_plain hplain (Nat.le_of_lt hfits), bodyLoop, if_pos hfits, if_neg (by decide),
    if_pos rfl, Option.bind_some]
  rfl

theorem getLoop_begunAgain (hplain : Plain text) (hfits : text.length < data.length - 1)
    (incoming : List Byte) :
    getLoop (0x24 :: text ++ 0x24 :: incoming) out data =
      getLoop (0x24 :: incoming) out (filled data text) := by
  have hlength : (filled data text).length = data.length := length_filled (by omega)
  rw [getLoop_eq, List.cons_append, startLoop, if_pos rfl, Option.bind_some,
    getLoop_plain hplain (Nat.le_of_lt hfits), bodyLoop, if_pos hfits, if_pos rfl,
    getLoop_eq (0x24 :: incoming), startLoop, if_pos rfl, Option.bind_some, hlength]

theorem getLoop_overrun (hplain : Plain text) (hfull : text.length = data.length - 1)
    (incoming : List Byte) :
    getLoop (0x24 :: text ++ incoming) out data =
      getLoop incoming out ((filled data text).set text.length 0) := by
  have hstop : bodyLoop data.length incoming (filled data text) text.sum text.length =
      some ⟨filled data text, text.sum, text.length, false, incoming⟩ := by
    cases incoming with
    | nil => exact if_neg (Nat.not_lt.mpr hfull.ge)
    | cons ch incoming => exact if_neg (Nat.not_lt.mpr hfull.ge)
  rw [getLoop_eq, List.cons_append, startLoop, if_pos rfl, Option.bind_some,
    getLoop_plain hplain hfull.le, hstop, Option.bind_some]
  rfl

end Steps

/-- The connection that `getPkt` leaves when `n` packets were refused. -/
def Outgoing.answered (out : Outgoing) (n : ℕ) : Outgoing :=
  ⟨out.sent ++ answers n, out.room - (n + 1)⟩

theorem Outgoing.answered_succ (out : Outgoing) (n : ℕ) :
    (⟨out.sent ++ [0x2D], out.room - 1⟩ : Outgoing).answered n = out.answered (n + 1) := by
  simp only [answered, answers, List.replicate_succ, List.append_assoc, List.cons_append,
    List.nil_append]
  rw [Nat.sub_sub, Nat.add_comm 1]

/-- What a receiver makes of the characters is what `getPkt` does. -/
theorem getLoop_of_receives {bufSize n : ℕ} {incoming body rest : List Byte}
    (hreceives : Receives bufSize incoming n body rest) {out : Outgoing} (hroom : n < out.room)
    {data : List Byte} (hdata : data.length = bufSize) :
    ∃ data', getLoop incoming out data = some (⟨rest, out.answered n⟩, ⟨data', body.length⟩) ∧
      Holds data' body ∧ data'.length = bufSize := by
  induction hreceives generalizing out data with
  | @accepted text rest first second hplain hfits hchecked =>
      subst hdata
      refine ⟨(filled data text).set text.length 0, ?_, holds_filled (by omega), ?_⟩
      · rw [getLoop_packet hplain hfits, if_neg (not_not.mpr hchecked), putRspChar, if_pos hroom]
        rfl
      · rw [List.length_set, length_filled (by omega)]
  | noise hch hrest ih =>
      rw [getLoop_noise hch]
      exact ih hroom hdata
  | begunAgain hplain hfits hrest ih =>
      subst hdata
      rw [getLoop_begunAgain hplain hfits]
      exact ih hroom (length_filled (by omega))
  | @refused text incoming body rest first second n hplain hfits hchecked hrest ih =>
      subst hdata
      have hmore : n < (⟨out.sent ++ [0x2D], out.room - 1⟩ : Outgoing).room := by
        show n < out.room - 1
        omega
      have hsame : ((filled data text).set text.length 0).length = data.length := by
        rw [List.length_set, length_filled (by omega)]
      obtain ⟨data', hget, hholds, hlength⟩ := ih hmore hsame
      refine ⟨data', ?_, hholds, hlength⟩
      rw [getLoop_packet hplain hfits, if_pos hchecked, putRspChar, if_pos (by omega),
        Option.bind_some, hget, Outgoing.answered_succ]
  | overrun hplain hfull hrest ih =>
      subst hdata
      rw [getLoop_overrun hplain hfull]
      exact ih hroom (by rw [List.length_set, length_filled (by omega)])

/-- Where the loop over the body stops, and what a receiver makes of the characters then. -/
structure Stops (bufSize : ℕ) (before incoming : List Byte) (body : Body) (text : List Byte) :
    Prop where
  plain : Plain text
  checksum : body.checksum = text.sum
  count : body.count = text.length
  holds : ∃ after, body.data = text ++ after
  length : body.data.length = bufSize
  ended : body.ended = true → text.length < bufSize - 1 ∧ ∀ n received rest,
    Receives bufSize (0x24 :: text ++ 0x23 :: body.rest) n received rest →
      Receives bufSize (0x24 :: before ++ incoming) n received rest
  full : body.ended = false → text.length = bufSize - 1 ∧ ∀ n received rest,
    Receives bufSize (0x24 :: text ++ body.rest) n received rest →
      Receives bufSize (0x24 :: before ++ incoming) n received rest

theorem bodyLoop_stops {bufSize : ℕ} {incoming before after : List Byte} {body : Body}
    (hplain : Plain before) (hfits : before.length ≤ bufSize - 1)
    (hlength : (before ++ after).length = bufSize)
    (hloop : bodyLoop bufSize incoming (before ++ after) before.sum before.length = some body) :
    ∃ text, Stops bufSize before incoming body text := by
  induction incoming generalizing before after with
  | nil =>
      rw [bodyLoop] at hloop
      split at hloop
      case isTrue => cases hloop
      case isFalse hfull =>
        cases hloop
        exact ⟨before, hplain, rfl, rfl, ⟨after, rfl⟩, hlength,
          fun hended => absurd hended Bool.false_ne_true,
          fun _ => ⟨by omega, fun _ _ _ hreceives => hreceives⟩⟩
  | cons ch incoming ih =>
      rw [bodyLoop] at hloop
      split_ifs at hloop with hless hstart hend
      · -- the packet begins again
        have hempty : Plain [] := ⟨List.not_mem_nil, List.not_mem_nil⟩
        obtain ⟨text, hstops⟩ := @ih [] (before ++ after) hempty (Nat.zero_le _) hlength hloop
        have hagain : ∀ n received rest,
            Receives bufSize (0x24 :: [] ++ incoming) n received rest →
              Receives bufSize (0x24 :: before ++ ch :: incoming) n received rest := by
          intro n received rest hreceives
          rw [hstart]
          exact .begunAgain hplain hless hreceives
        exact ⟨text, hstops.plain, hstops.checksum, hstops.count, hstops.holds, hstops.length,
          fun hended => ⟨(hstops.ended hended).1, fun n received rest hreceives =>
            hagain n received rest ((hstops.ended hended).2 n received rest hreceives)⟩,
          fun hfull => ⟨(hstops.full hfull).1, fun n received rest hreceives =>
            hagain n received rest ((hstops.full hfull).2 n received rest hreceives)⟩⟩
      · cases hloop
        refine ⟨before, hplain, rfl, rfl, ⟨after, rfl⟩, hlength, fun _ => ⟨hless, ?_⟩,
          fun hfull => absurd hfull.symm Bool.false_ne_true⟩
        intro n received rest hreceives
        rw [hend]
        exact hreceives
      · rw [List.length_append] at hlength
        obtain ⟨old, after, rfl⟩ := List.exists_cons_of_length_pos
          (show 0 < after.length by omega)
        have hset : (before ++ old :: after).set before.length ch = (before ++ [ch]) ++ after := by
          rw [List.set_append_right _ _ (Nat.le_refl _), Nat.sub_self, List.set_cons_zero,
            List.append_assoc, List.singleton_append]
        have hmore : Plain (before ++ [ch]) := by
          refine ⟨?_, ?_⟩
          · rw [List.mem_append, List.mem_singleton, not_or]
            exact ⟨hplain.1, Ne.symm hstart⟩
          · rw [List.mem_append, List.mem_singleton, not_or]
            exact ⟨hplain.2, Ne.symm hend⟩
        have hsum : before.sum + ch = (before ++ [ch]).sum := by
          rw [List.sum_append, List.sum_singleton]
        have hcount : before.length + 1 = (before ++ [ch]).length := by
          rw [List.length_append, List.length_singleton]
        rw [hset, hsum, hcount] at hloop
        obtain ⟨text, hstops⟩ := ih hmore (by omega)
          (by simp only [List.length_append, List.length_cons, List.length_nil] at hlength ⊢
              omega) hloop
        have hsame : (0x24 :: (before ++ [ch]) ++ incoming : List Byte) =
            0x24 :: before ++ ch :: incoming := by
          simp
        refine ⟨text, hstops.plain, hstops.checksum, hstops.count, hstops.holds, hstops.length,
          ?_, ?_⟩
        · rw [← hsame]
          exact hstops.ended
        · rw [← hsame]
          exact hstops.full
      · cases hloop
        exact ⟨before, hplain, rfl, rfl, ⟨after, rfl⟩, hlength,
          fun hended => absurd hended Bool.false_ne_true,
          fun _ => ⟨by omega, fun _ _ _ hreceives => hreceives⟩⟩

theorem startLoop_receives {bufSize : ℕ} {incoming start : List Byte}
    (hstart : startLoop incoming = some start) {n : ℕ} {body rest : List Byte}
    (hreceives : Receives bufSize (0x24 :: start) n body rest) :
    Receives bufSize incoming n body rest := by
  induction incoming with
  | nil => cases hstart
  | cons ch incoming ih =>
      rw [startLoop] at hstart
      split at hstart
      case isTrue hch =>
        cases hstart
        rw [hch]
        exact hreceives
      case isFalse hch => exact .noise hch (ih hstart)

theorem Outgoing.room_of_putRspChar {out next : Outgoing} {c : Byte}
    (hput : putRspChar out c = some next) : next.room + 1 = out.room := by
  rw [putRspChar] at hput
  split at hput
  case isTrue hroom =>
    cases hput
    exact Nat.sub_add_cancel hroom
  case isFalse => cases hput

/-- What `getPkt` does is what a receiver makes of the characters. -/
theorem receives_of_getLoop {incoming data : List Byte} {out : Outgoing}
    {result : RspConnection × RspPacket} (hget : getLoop incoming out data = some result) :
    ∃ n body rest, Receives data.length incoming n body rest ∧ n < out.room := by
  induction hn : incoming.length using Nat.strong_induction_on
    generalizing incoming out data with
  | _ k ih =>
      subst hn
      rw [getLoop_eq] at hget
      obtain ⟨start, hstart, hget⟩ := Option.bind_eq_some_iff.mp hget
      obtain ⟨body, hbody, hget⟩ := Option.bind_eq_some_iff.mp hget
      have hless := length_of_startLoop hstart
      have hle := length_of_bodyLoop hbody
      have hempty : Plain [] := ⟨List.not_mem_nil, List.not_mem_nil⟩
      obtain ⟨text, hstops⟩ := @bodyLoop_stops data.length start [] data body hempty
        (Nat.zero_le _) rfl hbody
      have hdata : (body.data.set body.count 0).length = data.length := by
        rw [List.length_set, hstops.length]
      by_cases hended : body.ended = true
      · rw [if_pos hended] at hget
        obtain ⟨hfits, hback⟩ := hstops.ended hended
        have hreceived := fun n received rest hreceives =>
          startLoop_receives hstart (hback n received rest hreceives)
        split at hget
        case h_1 first second rest hrest =>
          rw [hrest] at hle hreceived
          rw [hstops.checksum] at hget
          split at hget
          case isTrue hwrong =>
            obtain ⟨next, hput, hget⟩ := Option.bind_eq_some_iff.mp hget
            obtain ⟨n, received, rest', hreceives, hroom⟩ := ih rest.length
              (by simp only [List.length_cons] at hle; omega) hget rfl
            rw [hdata] at hreceives
            refine ⟨n + 1, received, rest', ?_, ?_⟩
            · exact hreceived _ _ _ (.refused hstops.plain hfits hwrong hreceives)
            · rw [← Outgoing.room_of_putRspChar hput]
              exact Nat.succ_lt_succ hroom
          case isFalse hright =>
            obtain ⟨next, hput, -⟩ := Option.map_eq_some_iff.mp hget
            refine ⟨0, text, rest, ?_, ?_⟩
            · exact hreceived _ _ _ (.accepted hstops.plain hfits (not_not.mp hright))
            · rw [← Outgoing.room_of_putRspChar hput]
              exact Nat.succ_pos _
        case h_2 => cases hget
      · rw [Bool.not_eq_true] at hended
        rw [if_neg (by rw [hended]; exact Bool.false_ne_true)] at hget
        obtain ⟨hfull, hback⟩ := hstops.full hended
        obtain ⟨n, received, rest', hreceives, hroom⟩ := ih body.rest.length (by omega) hget rfl
        rw [hdata] at hreceives
        exact ⟨n, received, rest', startLoop_receives hstart
          (hback _ _ _ (.overrun hstops.plain hfull hreceives)), hroom⟩

/-! ## The two ends -/

/-- `getPkt` returns exactly the packets that a receiver makes of the characters, and answers
each packet that it refuses and the one it returns. -/
theorem getPkt_receives (conn : RspConnection) (pkt : RspPacket) :
    (∀ conn' pkt', getPkt conn pkt = some (conn', pkt') →
      ∃ n body, Receives pkt.data.length conn.incoming n body conn'.incoming ∧
        n < conn.outgoing.room ∧ conn'.outgoing = conn.outgoing.answered n ∧
        pkt'.len = body.length ∧ Holds pkt'.data body) ∧
    ∀ n body rest, Receives pkt.data.length conn.incoming n body rest →
      n < conn.outgoing.room →
        ∃ data, getPkt conn pkt =
          some (⟨rest, conn.outgoing.answered n⟩, ⟨data, body.length⟩) ∧ Holds data body := by
  constructor
  · intro conn' pkt' hget
    obtain ⟨n, body, rest, hreceives, hroom⟩ := receives_of_getLoop hget
    obtain ⟨data, hsame, hholds, -⟩ := getLoop_of_receives hreceives hroom rfl
    rw [getPkt] at hget
    rw [hget] at hsame
    cases hsame
    exact ⟨n, body, hreceives, hroom, rfl, rfl, hholds⟩
  · intro n body rest hreceives hroom
    obtain ⟨data, hget, hholds, -⟩ := getLoop_of_receives hreceives hroom rfl
    exact ⟨data, hget, hholds⟩

/-- `putPkt` returns exactly when the peer answers `+`, and has then sent the packet once for
each answer and read no more than these. -/
theorem putPkt_returns (conn conn' : RspConnection) (pkt : RspPacket) :
    putPkt conn pkt = some conn' ↔
      ∃ refusals : List Byte, 0x2B ∉ refusals ∧
        conn.incoming = refusals ++ 0x2B :: conn'.incoming ∧
        conn.outgoing.putAll (packets (pkt.data.take pkt.len) (refusals.length + 1)) =
          some conn'.outgoing :=
  putLoop_iff

/-- The digits of a checksum are read back. -/
theorem checksum_digits (sum : Byte) :
    (char2Hex (hex2Char (sum >>> 4)) <<< 4) + char2Hex (hex2Char (sum % 16)) = sum := by
  revert sum
  decide

theorem plain_escape (payload : List Byte) : Plain (rspCode.escape payload) :=
  ⟨rspCode.notMem_escape rfl (by decide) payload, rspCode.notMem_escape rfl (by decide) payload⟩

/-- A packet that arrives with other characters, and a checksum that is not theirs. -/
def Damaged (bufSize : ℕ) (arrived : List Byte) : Prop :=
  ∃ text first second, Plain text ∧ text.length < bufSize - 1 ∧ ¬Checked text first second ∧
    arrived = 0x24 :: text ++ [0x23, first, second]

/-- Damaged packets are refused one by one, and the one that arrives intact is returned. -/
theorem receives_intact {bufSize : ℕ} {damaged : List (List Byte)} {payload rest : List Byte}
    (hdamaged : ∀ arrived ∈ damaged, Damaged bufSize arrived)
    (hfits : (rspCode.escape payload).length < bufSize - 1) :
    Receives bufSize (damaged.flatten ++ packet (rspCode.escape payload) ++ rest) damaged.length
      (rspCode.escape payload) rest := by
  induction damaged with
  | nil =>
      have hpacket : packet (rspCode.escape payload) ++ rest =
          0x24 :: rspCode.escape payload ++ 0x23 ::
            hex2Char ((rspCode.escape payload).sum >>> 4) ::
              hex2Char ((rspCode.escape payload).sum % 16) :: rest := by
        simp [packet]
      rw [List.flatten_nil, List.nil_append, hpacket]
      exact .accepted (plain_escape payload) hfits (checksum_digits _).symm
  | cons arrived damaged ih =>
      obtain ⟨text, first, second, hplain, hshort, hwrong, rfl⟩ :=
        hdamaged arrived (List.mem_cons_self ..)
      have hnext := ih fun arrived hmem => hdamaged arrived (List.mem_cons_of_mem _ hmem)
      have hrest := Receives.refused hplain hshort hwrong hnext
      rw [List.flatten_cons, List.length_cons]
      simpa using hrest

/-- Over a link that damages some transmissions of a packet, the sender repeats it as often as
the receiver refuses it, and the receiver ends up with the payload. -/
theorem payload_delivered {sender receiver : RspConnection} {pkt buffer : RspPacket}
    {damaged : List (List Byte)} {rest more : List Byte}
    (hdamaged : ∀ arrived ∈ damaged, Damaged buffer.data.length arrived)
    (hfits : (rspCode.escape (pkt.data.take pkt.len)).length < buffer.data.length - 1)
    (harrives : receiver.incoming =
      damaged.flatten ++ packet (rspCode.escape (pkt.data.take pkt.len)) ++ rest)
    (hroom : damaged.length < receiver.outgoing.room)
    (hanswers : sender.incoming = answers damaged.length ++ more)
    (hspace : (packets (pkt.data.take pkt.len) (damaged.length + 1)).length ≤
      sender.outgoing.room) :
    (∃ out, putPkt sender pkt = some ⟨more, out⟩ ∧
      out.sent = sender.outgoing.sent ++ packets (pkt.data.take pkt.len) (damaged.length + 1)) ∧
    ∃ conn received, getPkt receiver buffer = some (conn, received) ∧ conn.incoming = rest ∧
      conn.outgoing.sent = receiver.outgoing.sent ++ answers damaged.length ∧
      ∃ junk, rspUnescape received.data received.len =
        some (pkt.data.take pkt.len ++ junk, (pkt.data.take pkt.len).length) := by
  constructor
  · have hput : putPkt sender pkt = some ⟨more,
        ⟨sender.outgoing.sent ++ packets (pkt.data.take pkt.len) (damaged.length + 1),
          sender.outgoing.room -
            (packets (pkt.data.take pkt.len) (damaged.length + 1)).length⟩⟩ := by
      apply putLoop_iff.mpr
      refine ⟨List.replicate damaged.length 0x2D, ?_, ?_, ?_⟩
      · intro hmem
        exact absurd (List.eq_of_mem_replicate hmem) (by decide)
      · rw [hanswers, answers, List.append_assoc]
        rfl
      · rw [List.length_replicate, Outgoing.putAll, if_pos hspace]
    exact ⟨_, hput, rfl⟩
  · have hreceives : Receives buffer.data.length receiver.incoming damaged.length
        (rspCode.escape (pkt.data.take pkt.len)) rest := by
      rw [harrives]
      exact receives_intact hdamaged hfits
    obtain ⟨data, hget, ⟨junk, hdata⟩, -⟩ := getLoop_of_receives hreceives hroom rfl
    obtain ⟨gap, hunescape⟩ := rspUnescape_escape (pkt.data.take pkt.len) (0 :: junk)
    refine ⟨_, _, hget, rfl, rfl, gap ++ 0 :: junk, ?_⟩
    rw [hdata, hunescape, List.append_assoc]

/-- A body with an escaped character; the first transmission arrives with a wrong digit. -/
theorem payload_delivered_second :
    (∃ out, putPkt ⟨[0x2D, 0x2B], ⟨[], 20⟩⟩ ⟨[0x24, 0x41, 0], 2⟩ = some ⟨[], out⟩ ∧
      out.sent = [] ++ packets [0x24, 0x41] 2) ∧
    ∃ conn received, getPkt ⟨[0x24, 0x7D, 0x04, 0x41, 0x23, 0x63, 0x33, 0x24, 0x7D, 0x04, 0x41,
        0x23, 0x63, 0x32], ⟨[], 2⟩⟩ ⟨[0, 0, 0, 0, 0], 0⟩ = some (conn, received) ∧
      conn.incoming = [] ∧ conn.outgoing.sent = [] ++ answers 1 ∧
      ∃ junk, rspUnescape received.data received.len = some ([0x24, 0x41] ++ junk, 2) := by
  have hdamaged : ∀ arrived ∈ [[0x24, 0x7D, 0x04, 0x41, 0x23, 0x63, (0x33 : Byte)]],
      Damaged 5 arrived := by
    intro arrived hmem
    rw [List.mem_singleton] at hmem
    exact ⟨[0x7D, 0x04, 0x41], 0x63, 0x33, ⟨by decide, by decide⟩, by decide, by decide, hmem⟩
  exact @payload_delivered ⟨[0x2D, 0x2B], ⟨[], 20⟩⟩ ⟨[0x24, 0x7D, 0x04, 0x41, 0x23, 0x63, 0x33,
    0x24, 0x7D, 0x04, 0x41, 0x23, 0x63, 0x32], ⟨[], 2⟩⟩ ⟨[0x24, 0x41, 0], 2⟩ ⟨[0, 0, 0, 0, 0], 0⟩
    [[0x24, 0x7D, 0x04, 0x41, 0x23, 0x63, 0x33]] [] [] hdamaged (by decide) rfl (by decide) rfl
    (by decide)

end Prazor.Gdbrsp
