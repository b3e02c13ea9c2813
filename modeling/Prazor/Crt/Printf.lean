import Prazor.Core.Payload
import Prazor.Crt.NumberOutput

/-!
# Scanning a format

`locked_printf` scans the format once.  The current character `c` and the index `i` are
moved at different places: after a conversion `c` is read anew, but after `%%` it is
left, so that the scan goes on inside a specification.  The flag for leading zeros is set
to zero once, before the first character.

What the scan does is the list of its calls, each with the index of the character of the
format for which it is made; of a number, the characters that its call writes are seen.
The format is followed by its NUL here and nothing else; `none` is a read behind the NUL,
or an argument that is not there.
-/

namespace Prazor.Crt.Printf

abbrev Word := BitVec 32

/-- An argument. -/
inductive Arg where
  | int (value : Word)
  | longLong (value : Word64)
  | pointer (value : Word)
  | double (bits : Word64)
  | string (text : List Byte)

/-- The calls of the scan: a copied character, what a conversion prints, and the two
characters for a selector that it does not know. -/
inductive Call where
  | copied (c : Byte)
  | percent
  | character (tc : Word)
  | prstring (text : List Byte) (prefield field : Word)
  | putdouble (scientific : Bool) (bits : Word64) (field : Word)
  | puthex64 (zeropad : Bool) (value : Word64) (field : Word)
  | puthex32 (zeropad : Bool) (value field : Word)
  | pointer (address : Word)
  | putdec64 (zeropad signedf : Bool) (value : Word64) (field : Word)
  | putdec32 (zeropad signedf : Bool) (value field : Word)
  | unknown

/-- The flags of a specification. -/
structure Flags where
  zeropad : Bool
  prefield : Word
  field : Word
  longf : Byte

/-- The flags at the start of a specification; `zeropad` is not among those set there. -/
def Flags.start (zeropad : Bool) : Flags :=
  { zeropad := zeropad, prefield := -1, field := 0, longf := 0 }

/-- What can be seen of a call: of a number, the characters that are written. -/
def Call.effect : Call → Call ⊕ List Byte
  | .puthex64 zeropad value field => .inr (Number.puthex64 zeropad value field.toInt)
  | .puthex32 zeropad value field => .inr (Number.puthex32 zeropad value field.toInt)
  | .putdec64 zeropad signedf value field =>
      .inr (Number.putdec64 zeropad signedf value field.toInt)
  | .putdec32 zeropad signedf value field =>
      .inr (Number.putdec32 zeropad signedf value field.toInt)
  | call => .inl call

/-- The number is padded to its field. -/
def Call.Padded : Call → Prop
  | .puthex64 _ value field => Number.Padded Number.hex64Table false false value.toNat field.toInt
  | .puthex32 _ value field => Number.Padded Number.hex32Table false false value.toNat field.toInt
  | .putdec64 _ signedf value field =>
      Number.Padded Number.dec64Table false (signedf && value.msb)
        (Number.magnitude (signedf && value.msb) value) field.toInt
  | .putdec32 _ signedf value field =>
      Number.Padded Number.dec32Table true (signedf && value.msb)
        (Number.magnitude (signedf && value.msb) value) field.toInt
  | _ => False

/-- The cases of the `switch`. -/
inductive Selector where
  | percent
  | long
  | character
  | string
  | fixed
  | scientific
  | hex
  | pointer
  | star
  | signedDecimal
  | unsignedDecimal
  | digit (d : ℕ)
  | point
  | other
  deriving DecidableEq

/-- `if (t >= 'a') t = t - 32;` -/
def toupper (t : Byte) : Byte := if 0x61 ≤ t then t - 32 else t

/-- The case of a character. -/
def selector (character : Byte) : Selector :=
  let t := toupper character
  if t = 0x25 then .percent
  else if t = 0x4C then .long
  else if t = 0x43 then .character
  else if t = 0x53 then .string
  else if t = 0x46 then .fixed
  else if t = 0x45 then .scientific
  else if t = 0x58 then .hex
  else if t = 0x50 then .pointer
  else if t = 0x2A then .star
  else if t = 0x49 ∨ t = 0x44 then .signedDecimal
  else if t = 0x55 then .unsignedDecimal
  else if 0x30 ≤ t ∧ t ≤ 0x39 then .digit (t.toNat - 0x30)
  else if t = 0x2E then .point
  else .other

/-- The cases that jump back to the next character of the specification. -/
def Selector.isFlag : Selector → Bool
  | .long | .star | .digit _ | .point => true
  | _ => false

/-- `PRLIBC_VA_ARG(poi, int)` -/
def takeInt : List Arg → Option (Word × List Arg)
  | .int value :: rest => some (value, rest)
  | _ => none

/-- `PRLIBC_VA_ARG(poi, long long int)` -/
def takeLongLong : List Arg → Option (Word64 × List Arg)
  | .longLong value :: rest => some (value, rest)
  | _ => none

/-- The cases that change the flags; the others leave them. -/
def setFlag (flags : Flags) (args : List Arg) : Selector → Option (Flags × List Arg)
  | .long => some ({ flags with longf := flags.longf + 1 }, args)
  | .star => (takeInt args).map fun (value, rest) => ({ flags with field := value }, rest)
  | .digit d =>
      some ({ flags with
        zeropad := flags.zeropad || (d = 0 ∧ flags.field = 0)
        field := flags.field * 10 + BitVec.ofNat 32 d }, args)
  | .point => some ({ flags with prefield := flags.field, field := 0 }, args)
  | _ => some (flags, args)

/-- The cases that print. -/
def convert (flags : Flags) (args : List Arg) : Selector → Option (Call × List Arg)
  | .character => (takeInt args).map fun (tc, rest) => (.character tc, rest)
  | .string =>
      match args with
      | .string text :: rest => some (.prstring text flags.prefield flags.field, rest)
      | _ => none
  | .fixed =>
      match args with
      | .double bits :: rest => some (.putdouble false bits flags.field, rest)
      | _ => none
  | .scientific =>
      match args with
      | .double bits :: rest => some (.putdouble true bits flags.field, rest)
      | _ => none
  | .hex =>
      if 1 < flags.longf then
        (takeLongLong args).map fun (value, rest) =>
          (.puthex64 flags.zeropad value flags.field, rest)
      else (takeInt args).map fun (value, rest) =>
        (.puthex32 flags.zeropad value flags.field, rest)
  | .pointer =>
      match args with
      | .pointer address :: rest => some (.pointer address, rest)
      | _ => none
  | .signedDecimal =>
      if 1 < flags.longf then
        (takeLongLong args).map fun (value, rest) =>
          (.putdec64 flags.zeropad true value flags.field, rest)
      else (takeInt args).map fun (value, rest) =>
        (.putdec32 flags.zeropad true value flags.field, rest)
  | .unsignedDecimal =>
      if 1 < flags.longf then
        (takeLongLong args).map fun (value, rest) =>
          (.putdec64 flags.zeropad false value flags.field, rest)
      else (takeInt args).map fun (value, rest) =>
        (.putdec32 flags.zeropad false value flags.field, rest)
  | .percent => some (.percent, args)
  | _ => some (.unknown, args)

/-- The calls made and the arguments left. -/
abbrev Outcome := List (ℕ × Call) × List Arg

/-- What can be seen of the calls. -/
def Outcome.seen (outcome : Outcome) : List (ℕ × (Call ⊕ List Byte)) × List Arg :=
  (outcome.1.map fun made => (made.1, made.2.effect), outcome.2)

/-- A call before the others. -/
def Outcome.after (i : ℕ) (call : Call) (outcome : Outcome) : Outcome :=
  ((i, call) :: outcome.1, outcome.2)

/-- The scan of what is left of the format, from the index `i` on: outside a specification,
where the flag for leading zeros is all that is kept, or inside one. -/
def scan : List Byte → ℕ → Bool ⊕ Flags → List Arg → Option Outcome
  | [], _, _, _ => none
  | c :: rest, i, .inl zeropad, args =>
      if c = 0 then some ([], args)
      else if c = 0x25 then scan rest (i + 1) (.inr (.start zeropad)) args
      else (scan rest (i + 1) (.inl zeropad) args).map (Outcome.after i (.copied c))
  | t :: rest, i, .inr flags, args =>
      if (selector t).isFlag then
        (setFlag flags args (selector t)).bind fun (flags, args) =>
          scan rest (i + 1) (.inr flags) args
      else
        (convert flags args (selector t)).bind fun (call, args) =>
          -- after `%%` the current character still is the first `%`
          (scan rest (i + 1)
            (if selector t = .percent then .inr (.start flags.zeropad)
              else .inl flags.zeropad) args).map (Outcome.after i call)

/-- `locked_printf` for a format that is followed by its NUL. -/
def lockedPrintf (format : List Byte) (args : List Arg) : Option Outcome :=
  scan (format ++ [0]) 0 (.inl false) args

/-! ## The pieces of a format -/

/-- A character outside a specification, or a specification: the flags after its `%` and
the character that ends it. -/
inductive Piece where
  | literal (c : Byte)
  | specification (flags : List Byte) (last : Byte)

/-- The characters of a piece. -/
def Piece.text : Piece → List Byte
  | .literal c => [c]
  | .specification flags last => 0x25 :: (flags ++ [last])

/-- The pieces of a format, and the flags of a specification that its end cuts off. -/
def pieces : Option (List Byte) → List Byte → List Piece × Option (List Byte)
  | cut, [] => ([], cut)
  | none, c :: rest =>
      if c = 0x25 then pieces (some []) rest
      else
        let (found, cut) := pieces none rest
        (.literal c :: found, cut)
  | some flags, c :: rest =>
      if (selector c).isFlag then pieces (some (flags ++ [c])) rest
      else
        let (found, cut) := pieces none rest
        (.specification flags c :: found, cut)

/-- Flags are read one after the other. -/
def setFlags (flags : Flags) (args : List Arg) : List Byte → Option (Flags × List Arg)
  | [] => some (flags, args)
  | t :: rest => (setFlag flags args (selector t)).bind fun (flags, args) =>
      setFlags flags args rest

/-- What a piece calls for: the call, the index of the character for which it is made, and
for a specification its own flags and its selector. -/
structure Item where
  index : ℕ
  call : Call
  specification : Option (Flags × Selector)

/-- The item of a piece that starts at an index, and the arguments left. -/
def Piece.item (i : ℕ) (args : List Arg) : Piece → Option (Item × List Arg)
  | .literal c => some ({ index := i, call := .copied c, specification := none }, args)
  | .specification flags last =>
      (setFlags (.start false) args flags).bind fun (set, args) =>
        (convert set args (selector last)).map fun (call, args) =>
          ({ index := i + 1 + flags.length
             call := call
             specification := some (set, selector last) }, args)

/-- The items of the pieces, each specification read by itself. -/
def items : ℕ → List Arg → List Piece → Option (List Item × List Arg)
  | _, args, [] => some ([], args)
  | i, args, piece :: rest =>
      (piece.item i args).bind fun (item, args) =>
        (items (i + piece.text.length) args rest).map fun (found, args) =>
          (item :: found, args)

/-- The conversions that read the flag for leading zeros. -/
def Selector.isInteger : Selector → Bool
  | .hex | .signedDecimal | .unsignedDecimal => true
  | _ => false

/-- The specification of an item has a zero flag. -/
def Item.zeroFlag (item : Item) : Bool := item.specification.any fun x => x.1.zeropad

/-- The item is the `%` of a `%%`. -/
def Item.isPercent (item : Item) : Bool := item.specification.any fun x => x.2 = .percent

/-- The conversions with an argument. -/
def Selector.isConversion : Selector → Bool
  | .character | .string | .fixed | .scientific | .hex | .pointer | .signedDecimal
  | .unsignedDecimal => true
  | _ => false

/-- The number of arguments of a piece: one for a conversion and one for each `*`. -/
def Piece.arguments : Piece → ℕ
  | .literal _ => 0
  | .specification flags last =>
      flags.countP (fun t => selector t = .star) +
        if (selector last).isConversion then 1 else 0

/-- The arguments have the types that the format asks for. -/
def Matching (format : List Byte) (args : List Arg) : Prop :=
  (items 0 args (pieces none format).1).isSome

/-- What should be seen of an item. -/
def Item.traced (item : Item) : ℕ × (Call ⊕ List Byte) := (item.index, item.call.effect)

/-- The scan does not read behind the NUL, prints what the pieces of the format call for,
each read by itself, and takes as many arguments as they have. -/
def Faithful (format : List Byte) (args : List Arg) : Prop :=
  ∃ found rest, items 0 args (pieces none format).1 = some (found, rest) ∧
    (lockedPrintf format args).map Outcome.seen = some (found.map Item.traced, rest) ∧
    ((pieces none format).1.map Piece.arguments).sum + rest.length = args.length

/-! ## The pieces make up the format -/

/-- The characters that a cut off specification has. -/
def cutText : Option (List Byte) → List Byte
  | none => []
  | some flags => 0x25 :: flags

/-- What the scan for pieces ensures of a piece. -/
def Piece.WellFormed : Piece → Prop
  | .literal c => c ≠ 0x25
  | .specification flags last =>
      (∀ t ∈ flags, (selector t).isFlag = true) ∧ (selector last).isFlag = false

/-- The pieces and what is cut off are the format. -/
theorem flatMap_text_pieces (cut : Option (List Byte)) (format : List Byte) :
    (pieces cut format).1.flatMap Piece.text ++ cutText (pieces cut format).2 =
      cutText cut ++ format := by
  induction cut, format using pieces.induct with
  | case1 cut => simp [pieces]
  | case2 rest ih => simpa [pieces, cutText] using ih
  | case3 c rest hc found cut hfound ih =>
      rw [hfound] at ih
      rw [pieces, if_neg hc, hfound]
      simpa [Piece.text, cutText] using ih
  | case4 flags c rest hc ih => simpa [pieces, hc, cutText] using ih
  | case5 flags c rest hc found cut hfound ih =>
      rw [hfound] at ih
      rw [pieces, if_neg hc, hfound]
      simpa [Piece.text, cutText] using ih

theorem wellFormed_pieces (cut : Option (List Byte)) (format : List Byte)
    (hcut : ∀ flags, cut = some flags → ∀ t ∈ flags, (selector t).isFlag = true) :
    (∀ piece ∈ (pieces cut format).1, piece.WellFormed) ∧
      ∀ flags, (pieces cut format).2 = some flags →
        ∀ t ∈ flags, (selector t).isFlag = true := by
  induction cut, format using pieces.induct with
  | case1 cut => simpa [pieces] using hcut
  | case2 rest ih => simpa [pieces] using ih (by simp)
  | case3 c rest hc found cut hfound ih =>
      have hrest := ih (by simp)
      rw [hfound] at hrest
      rw [pieces, if_neg hc, hfound]
      exact ⟨List.forall_mem_cons.mpr ⟨hc, hrest.1⟩, hrest.2⟩
  | case4 flags c rest hc ih =>
      have hflags : ∀ t ∈ flags ++ [c], (selector t).isFlag = true := by
        intro t ht
        rcases List.mem_append.mp ht with ht | ht
        · exact hcut flags rfl t ht
        · rw [List.mem_singleton.mp ht]
          exact hc
      simpa [pieces, hc] using ih (by simpa using hflags)
  | case5 flags c rest hc found cut hfound ih =>
      have hspecification : (Piece.specification flags c).WellFormed :=
        ⟨hcut flags rfl, by simpa using hc⟩
      have hrest := ih (by simp)
      rw [hfound] at hrest
      rw [pieces, if_neg hc, hfound]
      exact ⟨List.forall_mem_cons.mpr ⟨hspecification, hrest.1⟩, hrest.2⟩

/-! ## The scan over a piece -/

/-- A flag for leading zeros from an earlier specification. -/
def Flags.carry (z : Bool) (flags : Flags) : Flags := { flags with zeropad := z || flags.zeropad }

/-- The call that the conversion makes when the flag for leading zeros was set before. -/
def Call.carry (z : Bool) : Call → Call
  | .puthex64 zeropad value field => .puthex64 (z || zeropad) value field
  | .puthex32 zeropad value field => .puthex32 (z || zeropad) value field
  | .putdec64 zeropad signedf value field => .putdec64 (z || zeropad) signedf value field
  | .putdec32 zeropad signedf value field => .putdec32 (z || zeropad) signedf value field
  | call => call

@[simp]
theorem start_carry (z : Bool) : (Flags.start false).carry z = Flags.start z := by
  simp [Flags.start, Flags.carry]

@[simp]
theorem carry_zeropad (z : Bool) (flags : Flags) :
    (flags.carry z).zeropad = (z || flags.zeropad) := rfl

theorem setFlag_carry (z : Bool) (flags : Flags) (args : List Arg) (selected : Selector) :
    setFlag (flags.carry z) args selected =
      (setFlag flags args selected).map fun (set, args) => (set.carry z, args) := by
  cases selected with
  | star => simp only [setFlag, Flags.carry, Option.map_map, Function.comp_def]
  | digit d =>
      simp only [setFlag, Flags.carry, Option.map_some, Bool.or_assoc]
      rfl
  | _ => rfl

theorem setFlags_carry (z : Bool) (flags : Flags) (args : List Arg) (text : List Byte) :
    setFlags (flags.carry z) args text =
      (setFlags flags args text).map fun (set, args) => (set.carry z, args) := by
  induction text generalizing flags args with
  | nil => rfl
  | cons t rest ih =>
      rw [setFlags, setFlags, setFlag_carry]
      cases hset : setFlag flags args (selector t) with
      | none => rfl
      | some set => simp [ih]

theorem convert_carry (z : Bool) (set : Flags) (args : List Arg) (selected : Selector) :
    convert (set.carry z) args selected =
      (convert set args selected).map fun (call, args) => (call.carry z, args) := by
  have hlong : (set.carry z).longf = set.longf := rfl
  cases selected <;> simp only [convert, hlong]
  case character => simp only [Option.map_map, Function.comp_def, Call.carry]
  case hex => split_ifs <;> simp only [Option.map_map, Function.comp_def] <;> rfl
  case signedDecimal => split_ifs <;> simp only [Option.map_map, Function.comp_def] <;> rfl
  case unsignedDecimal => split_ifs <;> simp only [Option.map_map, Function.comp_def] <;> rfl
  all_goals first | rfl | (split <;> rfl)

/-- The flag for leading zeros in a call of an integer conversion. -/
def Call.zeropad : Call → Option Bool
  | .puthex64 zeropad _ _ | .puthex32 zeropad _ _ | .putdec64 zeropad _ _ _
  | .putdec32 zeropad _ _ _ => some zeropad
  | _ => none

theorem length_takeInt {args rest : List Arg} {value : Word}
    (htake : takeInt args = some (value, rest)) : 1 + rest.length = args.length := by
  cases args with
  | nil => simp [takeInt] at htake
  | cons arg args =>
      cases arg <;> simp only [takeInt, Option.some.injEq, Prod.mk.injEq, reduceCtorEq] at htake
      rw [htake.2, List.length_cons, Nat.add_comm]

theorem length_takeLongLong {args rest : List Arg} {value : Word64}
    (htake : takeLongLong args = some (value, rest)) : 1 + rest.length = args.length := by
  cases args with
  | nil => simp [takeLongLong] at htake
  | cons arg args =>
      cases arg <;>
        simp only [takeLongLong, Option.some.injEq, Prod.mk.injEq, reduceCtorEq] at htake
      rw [htake.2, List.length_cons, Nat.add_comm]

/-- Only the integer conversions pass the flag on, no conversion copies a character, and
each takes one argument. -/
theorem convert_spec {set : Flags} {args rest : List Arg} {selected : Selector}
    {call : Call} (hcall : convert set args selected = some (call, rest)) :
    (call.zeropad = if selected.isInteger then some set.zeropad else none) ∧
      (∀ c, call ≠ .copied c) ∧
        (if selected.isConversion then 1 else 0) + rest.length = args.length := by
  have htake {α : Type} {make : α × List Arg → Call × List Arg}
      {taken : Option (α × List Arg)} {pad : Option Bool}
      (hlength : ∀ value left, taken = some (value, left) → 1 + left.length = args.length)
      (hmake : ∀ x, (make x).1.zeropad = pad ∧ (∀ c, (make x).1 ≠ .copied c) ∧
        (make x).2 = x.2)
      (hcall : taken.map make = some (call, rest)) :
      call.zeropad = pad ∧ (∀ c, call ≠ .copied c) ∧ 1 + rest.length = args.length := by
    obtain ⟨x, hx, hmade⟩ := Option.map_eq_some_iff.mp hcall
    have hspec := hmake x
    rw [hmade] at hspec
    have hrest : rest = x.2 := hspec.2.2
    rw [hrest]
    exact ⟨hspec.1, hspec.2.1, hlength x.1 x.2 hx⟩
  have hint := fun value left => @length_takeInt args left value
  have hlongLong := fun value left => @length_takeLongLong args left value
  cases selected <;> simp only [convert] at hcall
  case character => exact htake hint (fun _ => ⟨rfl, by simp, rfl⟩) hcall
  case hex =>
    split at hcall
    · exact htake hlongLong (fun _ => ⟨rfl, by simp, rfl⟩) hcall
    · exact htake hint (fun _ => ⟨rfl, by simp, rfl⟩) hcall
  case signedDecimal =>
    split at hcall
    · exact htake hlongLong (fun _ => ⟨rfl, by simp, rfl⟩) hcall
    · exact htake hint (fun _ => ⟨rfl, by simp, rfl⟩) hcall
  case unsignedDecimal =>
    split at hcall
    · exact htake hlongLong (fun _ => ⟨rfl, by simp, rfl⟩) hcall
    · exact htake hint (fun _ => ⟨rfl, by simp, rfl⟩) hcall
  all_goals
    try split at hcall
    all_goals grind [Call.zeropad, Selector.isInteger, Selector.isConversion]

/-- A copied character is seen as such. -/
theorem effect_eq_copied {call : Call} {c : Byte} (heffect : call.effect = .inl (.copied c)) :
    call = .copied c := by
  cases call <;> simp [Call.effect] at heffect
  rw [heffect]

/-- Only a number that is padded shows a flag that was left. -/
theorem effect_carry_iff (z : Bool) (call : Call) :
    (call.carry z).effect = call.effect ↔
      ∀ own, call.zeropad = some own → z = true → call.Padded → own = true := by
  cases call <;>
    simp only [Call.carry, Call.effect, Call.zeropad, Call.Padded, Sum.inr.injEq,
      Option.some.injEq, forall_eq', reduceCtorEq, false_imp_iff, implies_true]
  case puthex64 zeropad value field => exact Number.putNumber_or_iff ..
  case puthex32 zeropad value field => exact Number.putNumber_or_iff ..
  case putdec64 zeropad signedf value field => exact Number.putNumber_or_iff ..
  case putdec32 zeropad signedf value field => exact Number.putNumber_or_iff ..

theorem zeropad_of_padded {call : Call} (hpadded : call.Padded) :
    ∃ own, call.zeropad = some own := by
  cases call <;> first | exact ⟨_, rfl⟩ | cases hpadded

/-- Only a padded number of a conversion without a zero flag of its own looks different. -/
theorem carry_call_iff {z : Bool} {set : Flags} {args rest : List Arg} {selected : Selector}
    {call : Call} (hcall : convert set args selected = some (call, rest)) :
    (call.carry z).effect = call.effect ↔
      (z = true → call.Padded → set.zeropad = true) := by
  have hzeropad := (convert_spec hcall).1
  rw [effect_carry_iff]
  constructor
  · intro hown hz hpadded
    obtain ⟨own, hcallOwn⟩ := zeropad_of_padded hpadded
    have hset : own = set.zeropad := by
      rw [hcallOwn] at hzeropad
      split at hzeropad
      · exact Option.some.inj hzeropad
      · cases hzeropad
    exact hset ▸ hown own hcallOwn hz hpadded
  · intro hset own hcallOwn hz hpadded
    rw [hcallOwn] at hzeropad
    split at hzeropad
    · rw [Option.some.inj hzeropad]
      exact hset hz hpadded
    · cases hzeropad

/-- The flags of a specification are taken one after the other. -/
theorem scan_flags {flags : List Byte} (hflags : ∀ t ∈ flags, (selector t).isFlag = true)
    (rest : List Byte) (i : ℕ) (set : Flags) (args : List Arg) :
    scan (flags ++ rest) i (.inr set) args =
      (setFlags set args flags).bind fun (set, args) =>
        scan rest (i + flags.length) (.inr set) args := by
  induction flags generalizing i set args with
  | nil => rfl
  | cons t flags ih =>
      obtain ⟨ht, hflags⟩ := List.forall_mem_cons.mp hflags
      rw [List.cons_append, scan, if_pos ht, setFlags, Option.bind_assoc]
      congr 1
      funext ⟨set, args⟩
      dsimp only
      rw [ih hflags, List.length_cons, Nat.add_assoc, Nat.add_comm 1]

/-- A specification is scanned with the flag for leading zeros as it was left. -/
theorem scan_specification {flags : List Byte} {last : Byte}
    (hpiece : (Piece.specification flags last).WellFormed) (rest : List Byte) (i : ℕ)
    (z : Bool) (args : List Arg) :
    scan (0x25 :: (flags ++ last :: rest)) i (.inl z) args =
      (setFlags (.start z) args flags).bind fun (set, args) =>
        (convert set args (selector last)).bind fun (call, args) =>
          (scan rest (i + (flags.length + 2))
            (if selector last = .percent then .inr (.start set.zeropad)
              else .inl set.zeropad) args).map
            (Outcome.after (i + 1 + flags.length) call) := by
  rw [scan, if_neg (by decide), if_pos rfl, scan_flags hpiece.1]
  congr 1
  funext ⟨set, args⟩
  dsimp only
  rw [scan, if_neg (by simp [hpiece.2])]
  have hnext : i + 1 + flags.length + 1 = i + (flags.length + 2) := by omega
  rw [hnext]

/-- A format that ends inside a specification is read behind its NUL. -/
theorem scan_cut {flags : List Byte} (hflags : ∀ t ∈ flags, (selector t).isFlag = true)
    (i : ℕ) (z : Bool) (args : List Arg) :
    scan (0x25 :: flags ++ [0]) i (.inl z) args = none := by
  have hnul : (Piece.specification flags 0).WellFormed := ⟨hflags, by decide⟩
  rw [List.cons_append, scan_specification hnul]
  simp [scan]

/-- Inside a specification the first call is not that of a copied character, and at a `%`
it is made at once. -/
theorem scan_inr_head {text : List Byte} {i : ℕ} {flags : Flags} {args : List Arg}
    {outcome : Outcome} (hscan : scan text i (.inr flags) args = some outcome) :
    ∃ j call tail, outcome.1 = (j, call) :: tail ∧ (∀ c, call ≠ .copied c) ∧
      (text.head? = some 0x25 → j = i) := by
  induction text generalizing i flags args with
  | nil => simp [scan] at hscan
  | cons t rest ih =>
      rw [scan] at hscan
      split at hscan
      case isTrue hflag =>
        obtain ⟨x, _, hrest⟩ := Option.bind_eq_some_iff.mp hscan
        obtain ⟨j, call, tail, hfirst, hcall, _⟩ := ih hrest
        refine ⟨j, call, tail, hfirst, hcall, fun hhead => ?_⟩
        rw [List.head?_cons, Option.some.injEq] at hhead
        rw [hhead] at hflag
        exact absurd hflag (by decide)
      case isFalse =>
        obtain ⟨⟨call, _⟩, hconvert, hrest⟩ := Option.bind_eq_some_iff.mp hscan
        obtain ⟨tail, _, hafter⟩ := Option.map_eq_some_iff.mp hrest
        exact ⟨i, call, tail.1, by rw [← hafter]; rfl, (convert_spec hconvert).2.1, fun _ => rfl⟩

theorem map_after_eq_some_iff {i j : ℕ} {call : Call} {effect : Call ⊕ List Byte}
    {scanned : Option Outcome} {tail : List (ℕ × (Call ⊕ List Byte))} {rest : List Arg} :
    (scanned.map (Outcome.after i call)).map Outcome.seen = some ((j, effect) :: tail, rest) ↔
      (i = j ∧ call.effect = effect) ∧ scanned.map Outcome.seen = some (tail, rest) := by
  cases scanned with
  | none => simp
  | some outcome =>
      obtain ⟨calls, left⟩ := outcome
      simp [Outcome.after, Outcome.seen, and_assoc]

theorem items_cons_eq_some {i : ℕ} {args rest : List Arg} {piece : Piece} {l : List Piece}
    {found : List Item} (hitems : items i args (piece :: l) = some (found, rest)) :
    ∃ item left tail, piece.item i args = some (item, left) ∧
      items (i + piece.text.length) left l = some (tail, rest) ∧ found = item :: tail := by
  rw [items] at hitems
  obtain ⟨⟨item, left⟩, hitem, hrest⟩ := Option.bind_eq_some_iff.mp hitems
  obtain ⟨⟨tail, _⟩, htail, hfound⟩ := Option.map_eq_some_iff.mp hrest
  obtain ⟨rfl, rfl⟩ := Prod.mk.inj hfound
  exact ⟨item, left, tail, hitem, htail, rfl⟩

theorem item_specification_eq_some {i : ℕ} {args left : List Arg} {flags : List Byte}
    {last : Byte} {item : Item}
    (hitem : (Piece.specification flags last).item i args = some (item, left)) :
    ∃ set taken call, setFlags (.start false) args flags = some (set, taken) ∧
      convert set taken (selector last) = some (call, left) ∧
        item = { index := i + 1 + flags.length, call := call
                 specification := some (set, selector last) } := by
  rw [Piece.item] at hitem
  obtain ⟨⟨set, taken⟩, hset, hconverted⟩ := Option.bind_eq_some_iff.mp hitem
  obtain ⟨⟨call, _⟩, hcall, hmade⟩ := Option.map_eq_some_iff.mp hconverted
  obtain ⟨rfl, rfl⟩ := Prod.mk.inj hmade
  exact ⟨set, taken, call, hset, hcall, rfl⟩

/-! ## The scan of a format -/

/-- Inside a specification the scan does not do what the pieces from there on call for. -/
theorem scan_inr_ne {l : List Piece} {i : ℕ} {args rest : List Arg} {found : List Item}
    (hitems : items i args l = some (found, rest)) (ending : List Byte) (flags : Flags) :
    (scan (l.flatMap Piece.text ++ ending) i (.inr flags) args).map Outcome.seen ≠
      some (found.map Item.traced, rest) := by
  intro hseen
  obtain ⟨outcome, hscan, hseen⟩ := Option.map_eq_some_iff.mp hseen
  obtain ⟨j, call, tail, hmade, hcall, hpercent⟩ := scan_inr_head hscan
  have hfirst := congrArg Prod.fst hseen
  rw [Outcome.seen, hmade, List.map_cons] at hfirst
  cases l with
  | nil =>
      simp only [items, Option.some.injEq, Prod.mk.injEq] at hitems
      rw [← hitems.1] at hfirst
      cases hfirst
  | cons piece l =>
      obtain ⟨item, left, _, hitem, _, rfl⟩ := items_cons_eq_some hitems
      rw [List.map_cons, List.cons.injEq, Item.traced, Prod.mk.injEq] at hfirst
      cases piece with
      | literal c =>
          rw [Piece.item, Option.some.injEq, Prod.mk.injEq] at hitem
          rw [← hitem.1] at hfirst
          exact hcall c (effect_eq_copied hfirst.1.2)
      | specification flags last =>
          obtain ⟨_, _, _, _, _, rfl⟩ := item_specification_eq_some hitem
          have hindex : j = i + 1 + flags.length := hfirst.1.1
          have hat : j = i := hpercent (by simp [Piece.text])
          omega

/-- From outside a specification, and with the flag for leading zeros as it was left, the
scan does what the pieces call for exactly when no specification is cut off, none is `%%`,
and no padded number takes over a zero flag. -/
theorem scan_pieces {l : List Piece} {cut : Option (List Byte)}
    (hl : ∀ piece ∈ l, piece.WellFormed ∧ (0 : Byte) ∉ piece.text)
    (hcut : ∀ flags, cut = some flags → ∀ t ∈ flags, (selector t).isFlag = true)
    {i : ℕ} (z : Bool) {args rest : List Arg} {found : List Item}
    (hitems : items i args l = some (found, rest)) :
    (scan (l.flatMap Piece.text ++ (cutText cut ++ [0])) i (.inl z) args).map Outcome.seen =
        some (found.map Item.traced, rest) ↔
      cut = none ∧ (∀ item ∈ found, item.isPercent = false) ∧
        (∀ item ∈ found, z = true → item.call.Padded → item.zeroFlag = true) ∧
          found.Pairwise fun earlier later => earlier.zeroFlag = true →
            later.call.Padded → later.zeroFlag = true := by
  induction l generalizing i z args found with
  | nil =>
      simp only [items, Option.some.injEq, Prod.mk.injEq] at hitems
      obtain ⟨rfl, rfl⟩ := hitems
      cases cut with
      | none => simp [cutText, scan, Outcome.seen]
      | some flags =>
          have hnone := scan_cut (hcut flags rfl) i z args
          simp only [List.flatMap_nil, List.nil_append, cutText, hnone]
          simp
  | cons piece l ih =>
      obtain ⟨hpiece, htail⟩ := List.forall_mem_cons.mp hl
      obtain ⟨item, left, tail, hitem, hrest, rfl⟩ := items_cons_eq_some hitems
      rw [List.flatMap_cons, List.append_assoc, List.map_cons, List.forall_mem_cons,
        List.forall_mem_cons, List.pairwise_cons]
      cases piece with
      | literal c =>
          rw [Piece.item, Option.some.injEq, Prod.mk.injEq] at hitem
          obtain ⟨rfl, rfl⟩ := hitem
          have hnul : ¬c = 0 := by
            intro hc
            exact hpiece.2 (by simp [Piece.text, hc])
          have hlength : (Piece.literal c).text.length = 1 := rfl
          rw [hlength] at hrest
          rw [Piece.text, List.singleton_append, scan, if_neg hnul, if_neg hpiece.1, Item.traced,
            map_after_eq_some_iff, ih htail z hrest]
          simp [Item.isPercent, Call.Padded, Item.zeroFlag]
      | specification flags last =>
          obtain ⟨set, taken, call, hset, hcall, rfl⟩ := item_specification_eq_some hitem
          -- the flag that was left changes the flags and the call, not the arguments
          have hflags : setFlags (.start z) args flags = some (set.carry z, taken) := by
            rw [← start_carry, setFlags_carry, hset]
            rfl
          have hconvert : convert (set.carry z) taken (selector last) =
              some (call.carry z, left) := by
            rw [convert_carry, hcall]
            rfl
          have hlength : (Piece.specification flags last).text.length = flags.length + 2 := by
            simp [Piece.text]
          rw [hlength] at hrest
          rw [Piece.text, List.cons_append, List.append_assoc, List.singleton_append,
            scan_specification hpiece.1, hflags, Option.bind_some]
          dsimp only
          rw [hconvert, Option.bind_some, Item.traced, map_after_eq_some_iff,
            carry_call_iff hcall]
          by_cases hpercent : selector last = .percent
          · rw [if_pos hpercent]
            have hne := scan_inr_ne hrest (cutText cut ++ [0]) (.start (set.carry z).zeropad)
            exact iff_of_false (fun h => hne h.2)
              fun h => by simpa [Item.isPercent, hpercent] using h.2.1.1
          · have hkept : (∀ item ∈ tail, (set.carry z).zeropad = true →
                item.call.Padded → item.zeroFlag = true) ↔
                (∀ item ∈ tail, z = true → item.call.Padded → item.zeroFlag = true) ∧
                  ∀ item ∈ tail, set.zeropad = true →
                    item.call.Padded → item.zeroFlag = true := by
              simp only [carry_zeropad, Bool.or_eq_true, or_imp, forall_and]
            rw [if_neg hpercent, ih htail _ hrest, hkept]
            simp only [Item.isPercent, Item.zeroFlag, Option.any_some, hpercent, decide_false,
              true_and]
            tauto

/-- A character that is not in the format is in none of its pieces. -/
theorem not_mem_text {format : List Byte} {c : Byte} (hc : c ∉ format) :
    ∀ piece ∈ (pieces none format).1, c ∉ piece.text := by
  intro piece hpiece hmem
  apply hc
  have hformat := flatMap_text_pieces none format
  rw [cutText, List.nil_append] at hformat
  rw [← hformat]
  exact List.mem_append_left _ (List.mem_flatMap.mpr ⟨piece, hpiece, hmem⟩)

/-! ## The arguments -/

/-- A flag takes an argument when it is `*`. -/
theorem length_setFlag {flags set : Flags} {args rest : List Arg} {selected : Selector}
    (hset : setFlag flags args selected = some (set, rest)) :
    (if selected = .star then 1 else 0) + rest.length = args.length := by
  cases selected with
  | star =>
      obtain ⟨⟨value, _⟩, htake, hmade⟩ := Option.map_eq_some_iff.mp hset
      rw [← (Prod.mk.inj hmade).2]
      exact length_takeInt htake
  | _ =>
      simp only [setFlag, Option.some.injEq, Prod.mk.injEq] at hset
      simp [hset.2]

theorem length_setFlags {flags set : Flags} {args rest : List Arg} {text : List Byte}
    (hset : setFlags flags args text = some (set, rest)) :
    text.countP (fun t => selector t = .star) + rest.length = args.length := by
  induction text generalizing flags args with
  | nil =>
      rw [setFlags, Option.some.injEq, Prod.mk.injEq] at hset
      simp [hset.2]
  | cons t text ih =>
      obtain ⟨⟨first, left⟩, hfirst, hrest⟩ := Option.bind_eq_some_iff.mp hset
      have hone := length_setFlag hfirst
      have hothers := ih hrest
      rw [List.countP_cons]
      by_cases hstar : selector t = .star <;> simp only [hstar, decide_true, decide_false,
        if_true, if_false, Bool.false_eq_true] at hone ⊢ <;> omega

/-- The pieces take as many arguments as they have. -/
theorem length_items {l : List Piece} {i : ℕ} {args rest : List Arg} {found : List Item}
    (hitems : items i args l = some (found, rest)) :
    (l.map Piece.arguments).sum + rest.length = args.length := by
  induction l generalizing i args found with
  | nil =>
      rw [items, Option.some.injEq, Prod.mk.injEq] at hitems
      simp [hitems.2]
  | cons piece l ih =>
      obtain ⟨item, left, tail, hitem, hrest, rfl⟩ := items_cons_eq_some hitems
      have hothers := ih hrest
      rw [List.map_cons, List.sum_cons]
      cases piece with
      | literal c =>
          rw [Piece.item, Option.some.injEq, Prod.mk.injEq] at hitem
          rw [hitem.2, Piece.arguments, Nat.zero_add]
          exact hothers
      | specification flags last =>
          obtain ⟨set, taken, call, hset, hcall, _⟩ := item_specification_eq_some hitem
          have hflags := length_setFlags hset
          have hconversion := (convert_spec hcall).2.2
          rw [Piece.arguments]
          omega

/-! ## When the scan is faithful -/

/-- No specification is cut off by the end of the format, none is `%%`, and an integer
conversion after a specification with a zero flag has one itself or does not pad. -/
def Separate (format : List Byte) (args : List Arg) : Prop :=
  (pieces none format).2 = none ∧
    ∀ found rest, items 0 args (pieces none format).1 = some (found, rest) →
      (∀ item ∈ found, item.isPercent = false) ∧
        found.Pairwise fun earlier later => earlier.zeroFlag = true →
          later.call.Padded → later.zeroFlag = true

/-- The scan of a format is faithful exactly when its specifications stand apart. -/
theorem lockedPrintf_faithful_iff {format : List Byte} {args : List Arg}
    (hnul : (0 : Byte) ∉ format) (hmatching : Matching format args) :
    Faithful format args ↔ Separate format args := by
  obtain ⟨⟨found, rest⟩, hitems⟩ := Option.isSome_iff_exists.mp hmatching
  have hwell := wellFormed_pieces none format (by simp)
  have hpieces : ∀ piece ∈ (pieces none format).1, piece.WellFormed ∧ (0 : Byte) ∉ piece.text :=
    fun piece hpiece => ⟨hwell.1 piece hpiece, not_mem_text hnul piece hpiece⟩
  have hscan := scan_pieces hpieces hwell.2 false hitems
  have hformat := flatMap_text_pieces none format
  rw [cutText, List.nil_append] at hformat
  rw [← List.append_assoc, hformat] at hscan
  have hfaithful : Faithful format args ↔
      (scan (format ++ [0]) 0 (.inl false) args).map Outcome.seen =
        some (found.map Item.traced, rest) := by
    simp only [Faithful, hitems, Option.some.injEq, Prod.mk.injEq]
    constructor
    · rintro ⟨_, _, ⟨rfl, rfl⟩, hprintf, _⟩
      exact hprintf
    · intro hprintf
      exact ⟨found, rest, ⟨rfl, rfl⟩, hprintf, length_items hitems⟩
  rw [hfaithful, hscan, Separate]
  simp [hitems]

/-- A single conversion is right. -/
theorem lockedPrintf_faithful_iff_single :
    (0 : Byte) ∉ [0x61, 0x25, 0x35, 0x64] ∧ Matching [0x61, 0x25, 0x35, 0x64] [.int 7] ∧
      (Faithful [0x61, 0x25, 0x35, 0x64] [.int 7] ↔
        Separate [0x61, 0x25, 0x35, 0x64] [.int 7]) :=
  ⟨by decide, rfl, lockedPrintf_faithful_iff (by decide) rfl⟩

theorem not_faithful_of_none {format : List Byte} {args : List Arg}
    (hnone : lockedPrintf format args = none) : ¬Faithful format args := by
  rintro ⟨found, rest, _, hprintf, _⟩
  rw [hnone] at hprintf
  cases hprintf

/-- `%%` and a lone `%` are read behind their NUL, and the second number of `%05d%3d` gets
the leading zeros of the first. -/
theorem not_faithful :
    (Matching [0x25, 0x25] [] ∧ ¬Faithful [0x25, 0x25] []) ∧
      (Matching [0x25] [] ∧ ¬Faithful [0x25] []) ∧
        Matching [0x25, 0x30, 0x35, 0x64, 0x25, 0x33, 0x64] [.int 1, .int 2] ∧
          ¬Faithful [0x25, 0x30, 0x35, 0x64, 0x25, 0x33, 0x64] [.int 1, .int 2] := by
  refine ⟨⟨rfl, not_faithful_of_none rfl⟩, ⟨rfl, not_faithful_of_none rfl⟩, rfl, ?_⟩
  rintro ⟨found, rest, hitems, hprintf, _⟩
  have hcalls : lockedPrintf [0x25, 0x30, 0x35, 0x64, 0x25, 0x33, 0x64] [.int 1, .int 2] =
      some ([(3, .putdec32 true true 1 5), (6, .putdec32 true true 2 3)], []) := rfl
  have hmeant : (items 0 [.int 1, .int 2]
      (pieces none [0x25, 0x30, 0x35, 0x64, 0x25, 0x33, 0x64]).1).map
        (fun x => x.1.map Item.traced) =
      some [(3, Call.effect (.putdec32 true true 1 5)),
        (6, Call.effect (.putdec32 false true 2 3))] := rfl
  rw [hcalls, Option.map_some, Option.some.injEq, Outcome.seen, Prod.mk.injEq] at hprintf
  rw [hitems, Option.map_some, Option.some.injEq] at hmeant
  have hsame := hprintf.1.trans hmeant
  simp only [List.map_cons, List.cons.injEq, Prod.mk.injEq, Call.effect, Sum.inr.injEq,
    true_and] at hsame
  exact absurd hsame.1 (by decide)

end Prazor.Crt.Printf
