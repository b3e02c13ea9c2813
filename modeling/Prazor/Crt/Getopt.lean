import Prazor.Crt.Strings

/-!
# `getopt`

The calls of `getopt` go through the arguments of a program with an index and a pointer into
the current argument.  What they are to deliver is read off the arguments: a list of options
and other arguments, whose texts are those of the command line.

The pointers are those of strings of the library; `none` is an access to `argv` at `argc` or
beyond, or a read behind a NUL.
-/

namespace Prazor.Crt

/-- `strchr` for a character that is not NUL. -/
def strchr : List Byte → Byte → Option (Option (List Byte))
  | [], _ => none
  | c :: src, chr =>
      if c = 0 then some none
      else if c = chr then some (some (c :: src)) else strchr src chr

namespace Getopt

def eof : ℤ := -1

/-- A `char` as an `int`. -/
def charInt (signedChar : Bool) (c : Byte) : ℤ := if signedChar then c.toInt else c.toNat

/-- What is printed about an option, behind the name of the program. -/
inductive Message
  | invalidOption (name : List Byte) (c : Byte)
  | requiresArgument (name : List Byte) (c : Byte)

/-- The variables of the library. -/
structure State where
  optind : ℕ
  nextchar : Option (List Byte)
  optarg : Option (List Byte)
  optopt : ℤ
  printed : List Message

/-- A program's arguments and what the calls have in common. -/
structure Program where
  signedChar : Bool
  opterr : Bool
  argv : List CString
  optstring : CString

namespace Program

variable (program : Program)

def argc : ℕ := program.argv.length

/-- `argv[i]` -/
def arg? (i : ℕ) : Option (List Byte) := program.argv[i]?.map CString.terminated

/-- `_getopt_initialize` -/
def getoptInitialize (s : State) : State := { s with optind := 1, nextchar := none }

/-- A message, where `opterr` asks for it. -/
def complain (s : State) (message : List Byte → Message) : Option State :=
  if program.opterr then
    (program.arg? 0).map fun name => { s with printed := s.printed ++ [message name] }
  else some s

/-- `*nextchar++` is an option. -/
def takeOption (s : State) (nextchar : List Byte) : Option (State × ℤ) := do
  let c ← nextchar.head?
  let nextchar := nextchar.tail
  let temp ← strchr program.optstring.terminated c
  let next ← nextchar.head?
  let s := { s with
    nextchar := some nextchar
    optind := if next = 0 then s.optind + 1 else s.optind }
  match temp with
  | none =>
      let s ← program.complain s (.invalidOption · c)
      some ({ s with optopt := charInt program.signedChar c }, 0x3F)
  | some temp =>
      if c = 0x3A then
        let s ← program.complain s (.invalidOption · c)
        some ({ s with optopt := charInt program.signedChar c }, 0x3F)
      else
        let colon ← temp[1]?
        if colon = 0x3A then
          let second ← temp[2]?
          if second = 0x3A then
            if next ≠ 0 then
              some ({ s with
                optarg := some nextchar, optind := s.optind + 1, nextchar := none },
                charInt program.signedChar c)
            else some ({ s with optarg := none, nextchar := none }, charInt program.signedChar c)
          else if next ≠ 0 then
            some ({ s with optarg := some nextchar, optind := s.optind + 1, nextchar := none },
              charInt program.signedChar c)
          else if s.optind = program.argc then
            let s ← program.complain s (.requiresArgument · c)
            let first ← program.optstring.terminated.head?
            some ({ s with optopt := charInt program.signedChar c, nextchar := none },
              if first = 0x3A then 0x3A else 0x3F)
          else
            let separate ← program.arg? s.optind
            some ({ s with
              optarg := some separate, optind := s.optind + 1, nextchar := none },
              charInt program.signedChar c)
        else some (s, charInt program.signedChar c)

/-- Whether the current argument is used up. -/
def atEnd (s : State) : Option Bool :=
  match s.nextchar with
  | none => some true
  | some nextchar => nextchar.head?.map (· == 0)

/-- `getopt` -/
def getopt (s : State) : Option (State × ℤ) := do
  let s := { s with optarg := none }
  let s := if s.optind = 0 then getoptInitialize s else s
  let used ← atEnd s
  if used then
    if s.optind = program.argc then some (s, eof)
    else
      let word ← program.arg? s.optind
      let first ← word.head?
      if first ≠ 0x2D then some ({ s with optarg := some word, optind := s.optind + 1 }, 1)
      else
        let second ← word[1]?
        if second = 0 then some ({ s with optarg := some word, optind := s.optind + 1 }, 1)
        else program.takeOption s (word.drop 1)
  else
    let nextchar ← s.nextchar
    program.takeOption s nextchar

/-- The state before the first call. -/
def start : State where
  optind := 0
  nextchar := none
  optarg := none
  optopt := 0x3F
  printed := []

/-- Some calls: what each one returns and the state that it leaves. -/
def calls : ℕ → State → Option (List (ℤ × State))
  | 0, _ => some []
  | n + 1, s => do
      let (s, value) ← program.getopt s
      let rest ← calls n s
      some ((value, s) :: rest)

end Program

/-! ## What is to be delivered -/

/-- What an option string says of a character. -/
inductive Kind
  | unknown
  | flag
  | optional
  | required
  deriving DecidableEq

/-- The first place of the character counts, and the colons behind it. -/
def kindAt (behind : List Byte) : Kind :=
  if behind.head? = some 0x3A then
    if behind.tail.head? = some 0x3A then .optional else .required
  else .flag

def kind (optstring : List Byte) (c : Byte) : Kind :=
  if c = 0x3A then .unknown
  else
    match optstring.dropWhile (· != c) with
    | [] => .unknown
    | _ :: rest => kindAt rest

inductive Item
  | word (text : List Byte)
  | option (c : Byte) (argument : Option (List Byte))
  | unknown (c : Byte)
  | missing (c : Byte)

/-- The characters that an item stands for. -/
def Item.text : Item → List Byte
  | .word text => text
  | .option c argument => c :: argument.getD []
  | .unknown c | .missing c => [c]

/-- An item, which may be the first one of an argument with a dash. -/
structure Delivery where
  dash : Bool
  item : Item

def Delivery.text (delivery : Delivery) : List Byte :=
  if delivery.dash then 0x2D :: delivery.item.text else delivery.item.text

/-- The options in the rest of an argument, and one that still needs its argument. -/
def cluster (optstring : List Byte) :
    Bool → List Byte → List Delivery × Option (Bool × Byte)
  | _, [] => ([], none)
  | dash, c :: chars =>
      match kind optstring c with
      | .unknown =>
          (⟨dash, .unknown c⟩ :: (cluster optstring false chars).1,
            (cluster optstring false chars).2)
      | .flag =>
          (⟨dash, .option c none⟩ :: (cluster optstring false chars).1,
            (cluster optstring false chars).2)
      | .optional => ([⟨dash, .option c (if chars = [] then none else some chars)⟩], none)
      | .required =>
          if chars = [] then ([], some (dash, c)) else ([⟨dash, .option c (some chars)⟩], none)

/-- An argument with options starts with a dash that is not alone. -/
def isCluster (word : List Byte) : Bool := word.head? == some 0x2D && word.tail != []

/-- The items of a command line, with an option that needs the next argument. -/
def deliveries (optstring : List Byte) :
    Option (Bool × Byte) → List (List Byte) → List Delivery
  | none, [] => []
  | some (dash, c), [] => [⟨dash, .missing c⟩]
  | some (dash, c), word :: words =>
      ⟨dash, .option c (some word)⟩ :: deliveries optstring none words
  | none, word :: words =>
      if isCluster word then
        (cluster optstring true word.tail).1 ++
          deliveries optstring (cluster optstring true word.tail).2 words
      else ⟨false, .word word⟩ :: deliveries optstring none words

/-- The items from the rest of an argument on. -/
def pending (optstring : List Byte) (dash : Bool) (chars : List Byte)
    (words : List (List Byte)) : List Delivery :=
  (cluster optstring dash chars).1 ++ deliveries optstring (cluster optstring dash chars).2 words

/-! ## The option string -/

theorem strchr_terminated {text : List Byte} (htext : 0 ∉ text) (c : Byte) :
    strchr (text ++ [0]) c =
      some (if text.dropWhile (· != c) = [] then none
        else some (text.dropWhile (· != c) ++ [0])) := by
  induction text with
  | nil => rfl
  | cons d text ih =>
      rw [List.mem_cons, not_or] at htext
      rw [List.cons_append, strchr, if_neg (Ne.symm htext.1)]
      by_cases hsame : d = c
      · have hhere : (d :: text).dropWhile (· != c) = d :: text :=
          List.dropWhile_cons_of_neg (by rw [hsame]; simp)
        rw [if_pos hsame, hhere, if_neg (List.cons_ne_nil d text), List.cons_append]
      · have hskip : (d :: text).dropWhile (· != c) = text.dropWhile (· != c) :=
          List.dropWhile_cons_of_pos (by simpa using hsame)
        rw [if_neg hsame, ih htext.2, hskip]

/-- The characters of the option string from the place of an option on. -/
theorem dropWhile_eq_cons {text : List Byte} {c : Byte}
    (hne : text.dropWhile (· != c) ≠ []) :
    ∃ behind, text.dropWhile (· != c) = c :: behind := by
  cases hdrop : text.dropWhile (· != c) with
  | nil => exact absurd hdrop hne
  | cons d behind =>
      have hnot := List.head?_dropWhile_not (· != c) text
      rw [hdrop] at hnot
      have hsame : d = c := by simpa using hnot
      exact ⟨behind, by rw [hsame]⟩

/-- What `getopt` finds in the option string. -/
inductive Found (optstring : CString) (c : Byte) : Kind → Prop
  | unknown (temp : Option (List Byte)) (hfind : strchr optstring.terminated c = some temp)
      (hnot : temp = none ∨ c = 0x3A) : Found optstring c .unknown
  | flag (temp : List Byte) (colon : Byte) (hc : c ≠ 0x3A)
      (hfind : strchr optstring.terminated c = some (some temp))
      (hfirst : temp[1]? = some colon) (hcolon : colon ≠ 0x3A) : Found optstring c .flag
  | optional (temp : List Byte) (hc : c ≠ 0x3A)
      (hfind : strchr optstring.terminated c = some (some temp))
      (hfirst : temp[1]? = some 0x3A) (hsecond : temp[2]? = some 0x3A) :
      Found optstring c .optional
  | required (temp : List Byte) (second : Byte) (hc : c ≠ 0x3A)
      (hfind : strchr optstring.terminated c = some (some temp))
      (hfirst : temp[1]? = some 0x3A) (hsecond : temp[2]? = some second)
      (hcolon : second ≠ 0x3A) : Found optstring c .required

theorem found (optstring : CString) (c : Byte) :
    Found optstring c (kind optstring.chars c) := by
  have hfind := strchr_terminated optstring.nonzero c
  by_cases hc : c = 0x3A
  · rw [kind, if_pos hc]
    exact .unknown _ hfind (Or.inr hc)
  · rw [kind, if_neg hc]
    by_cases hdrop : optstring.chars.dropWhile (· != c) = []
    · rw [if_pos hdrop] at hfind
      rw [hdrop]
      exact .unknown _ hfind (Or.inl rfl)
    · obtain ⟨behind, hbehind⟩ := dropWhile_eq_cons hdrop
      rw [if_neg hdrop, hbehind] at hfind
      rw [hbehind]
      dsimp only
      cases behind with
      | nil => exact .flag _ 0 hc hfind rfl (by decide)
      | cons colon behind =>
          by_cases hcolon : colon = 0x3A
          · subst hcolon
            cases behind with
            | nil => exact .required _ 0 hc hfind rfl rfl (by decide)
            | cons second behind =>
                by_cases hsecond : second = 0x3A
                · subst hsecond
                  exact .optional _ hc hfind rfl rfl
                · have hkind : kindAt (0x3A :: second :: behind) = .required := by
                    simp only [kindAt, List.head?_cons, List.tail_cons, Option.some.injEq,
                      if_true, if_neg hsecond]
                  rw [hkind]
                  exact .required _ second hc hfind rfl rfl hsecond
          · have hkind : kindAt (colon :: behind) = .flag := by
              simp only [kindAt, List.head?_cons, Option.some.injEq, if_neg hcolon]
            rw [hkind]
            exact .flag _ colon hc hfind rfl hcolon

/-! ## One call -/

namespace Program

variable {program : Program} {s s' : State} {c : Byte} {chars : List Byte}

/-- The arguments from an index on. -/
def wordsFrom (program : Program) (i : ℕ) : List (List Byte) :=
  (program.argv.drop i).map CString.chars

/-- The item is what a call has returned. -/
def Shows (program : Program) : Item → ℤ × State → Prop
  | .word text, (value, s) => value = 1 ∧ s.optarg = some (text ++ [0])
  | .option c argument, (value, s) =>
      value = charInt program.signedChar c ∧ s.optarg = argument.map (· ++ [0])
  | .unknown c, (value, s) =>
      value = 0x3F ∧ s.optarg = none ∧ s.optopt = charInt program.signedChar c
  | .missing c, (value, s) =>
      value = (if program.optstring.chars.head? = some 0x3A then 0x3A else 0x3F) ∧
        s.optarg = none ∧ s.optopt = charInt program.signedChar c

/-- Where the calls are, and the items that are left: between two arguments or inside one
with options. -/
inductive At (program : Program) (s : State) : List Delivery → Prop
  | between (hused : s.nextchar = none ∨ s.nextchar = some [0]) (hpos : 0 < s.optind)
      (hle : s.optind ≤ program.argc) :
      At program s (deliveries program.optstring.chars none (program.wordsFrom s.optind))
  | inside (c : Byte) (chars : List Byte) (hnext : s.nextchar = some (c :: (chars ++ [0])))
      (hnonzero : 0 ∉ c :: chars) (hpos : 0 < s.optind) (hlt : s.optind < program.argc) :
      At program s (pending program.optstring.chars false (c :: chars)
        (program.wordsFrom (s.optind + 1)))

/-- A call delivers the first item that is left. -/
def Delivers (program : Program) (result : Option (State × ℤ)) : List Delivery → Prop
  | [] => False
  | delivery :: rest => ∃ s' value, result = some (s', value) ∧
      program.Shows delivery.item (value, s') ∧ At program s' rest

theorem wordsFrom_of_lt {i : ℕ} (hi : i < program.argc) :
    ∃ word, 0 ∉ word ∧ program.arg? i = some (word ++ [0]) ∧
      program.wordsFrom i = word :: program.wordsFrom (i + 1) := by
  have hplace : i < program.argv.length := hi
  refine ⟨program.argv[i].chars, program.argv[i].nonzero, ?_, ?_⟩
  · rw [arg?, List.getElem?_eq_getElem hplace, Option.map_some, CString.terminated]
  · rw [wordsFrom, List.drop_eq_getElem_cons hplace, List.map_cons]
    rfl

theorem wordsFrom_argc (program : Program) : program.wordsFrom program.argc = [] := by
  rw [wordsFrom, argc, List.drop_length, List.map_nil]

theorem complain_spec (hargc : 0 < program.argc) (s : State) (message : List Byte → Message) :
    ∃ printed, program.complain s message = some { s with printed := printed } := by
  obtain ⟨name, -, harg, -⟩ := wordsFrom_of_lt hargc
  rw [complain, harg]
  cases program.opterr
  · exact ⟨s.printed, rfl⟩
  · exact ⟨s.printed ++ [message (name ++ [0])], rfl⟩

/-- Behind a character of an argument, the calls are still inside or have come to the next
argument. -/
theorem at_behind (hnonzero : 0 ∉ chars) (hpos : 0 < s.optind) (hlt : s.optind < program.argc)
    (hnext : s'.nextchar = some (chars ++ [0]))
    (hind : s'.optind = if chars = [] then s.optind + 1 else s.optind) :
    At program s' (pending program.optstring.chars false chars
      (program.wordsFrom (s.optind + 1))) := by
  cases chars with
  | nil =>
      rw [if_pos rfl] at hind
      rw [← hind]
      exact .between (Or.inr hnext) (by omega) (by omega)
  | cons c chars =>
      rw [if_neg (List.cons_ne_nil c chars)] at hind
      rw [← hind]
      exact .inside c chars hnext hnonzero (by omega) (by omega)

theorem head?_terminated (chars : List Byte) :
    (chars ++ [0]).head? = some (chars.head?.getD 0) := by
  cases chars <;> rfl

theorem head_eq_zero (hnonzero : 0 ∉ chars) : chars.head?.getD 0 = 0 ↔ chars = [] := by
  cases chars with
  | nil => exact iff_of_true rfl rfl
  | cons c chars =>
      rw [List.mem_cons, not_or] at hnonzero
      exact iff_of_false (Ne.symm hnonzero.1) (List.cons_ne_nil c chars)

theorem head_eq_colon (chars : List Byte) :
    chars.head?.getD 0 = 0x3A ↔ chars.head? = some 0x3A := by
  cases chars with
  | nil => exact iff_of_false (by decide) (Option.some_ne_none _).symm
  | cons c chars => rw [List.head?_cons, Option.getD_some, Option.some.injEq]

/-- The state in which `getopt` looks at the option string. -/
def moved (s : State) (chars : List Byte) : State :=
  { s with
    nextchar := some (chars ++ [0])
    optind := if chars.head?.getD 0 = 0 then s.optind + 1 else s.optind }

theorem optind_moved (hnonzero : 0 ∉ chars) :
    (moved s chars).optind = if chars = [] then s.optind + 1 else s.optind := by
  simp only [moved, head_eq_zero hnonzero]

/-- After an option with its argument the calls are at the next argument. -/
theorem at_next (hlt : s.optind < program.argc) (hnext : s'.nextchar = none)
    (hind : s'.optind = s.optind + 1) :
    At program s' (deliveries program.optstring.chars none
      (program.wordsFrom (s.optind + 1))) := by
  rw [← hind]
  exact .between (Or.inl hnext) (by omega) (by omega)

/-- A character that is no option. -/
theorem takeOption_unknown (hnonzero : 0 ∉ c :: chars) (hpos : 0 < s.optind)
    (hlt : s.optind < program.argc) (hoptarg : s.optarg = none)
    (hfound : Found program.optstring c .unknown) :
    ∃ s', program.takeOption s (c :: (chars ++ [0])) = some (s', 0x3F) ∧
      s'.optarg = none ∧ s'.optopt = charInt program.signedChar c ∧
      At program s' (pending program.optstring.chars false chars
        (program.wordsFrom (s.optind + 1))) := by
  rw [List.mem_cons, not_or] at hnonzero
  obtain ⟨printed, hcomplain⟩ := complain_spec (Nat.zero_lt_of_lt hlt) (moved s chars)
    (.invalidOption · c)
  have hind := @optind_moved s chars hnonzero.2
  cases hfound with
  | unknown temp hfind hnot =>
      refine ⟨{ moved s chars with
        printed := printed, optopt := charInt program.signedChar c }, ?_, hoptarg, rfl,
        at_behind hnonzero.2 hpos hlt rfl hind⟩
      rw [moved] at hcomplain
      cases temp with
      | none =>
          simp only [takeOption, List.head?_cons, List.tail_cons, hfind,
            head?_terminated chars, Option.bind_eq_bind, Option.bind_some, hcomplain]
          rfl
      | some temp =>
          have hc : c = 0x3A := hnot.resolve_left (Option.some_ne_none temp)
          simp only [takeOption, List.head?_cons, List.tail_cons, hfind,
            head?_terminated chars, Option.bind_eq_bind, Option.bind_some, if_pos hc, hcomplain]
          rfl

theorem takeOption_flag (hfound : Found program.optstring c .flag) :
    program.takeOption s (c :: (chars ++ [0])) =
      some (moved s chars, charInt program.signedChar c) := by
  cases hfound with
  | flag temp colon hc hfind hfirst hcolon =>
      simp only [takeOption, List.head?_cons, List.tail_cons, hfind, head?_terminated chars,
        Option.bind_eq_bind, Option.bind_some, if_neg hc, hfirst, if_neg hcolon]
      rfl

theorem takeOption_attached (hne : chars.head?.getD 0 ≠ 0)
    (hfound : Found program.optstring c .optional ∨ Found program.optstring c .required) :
    program.takeOption s (c :: (chars ++ [0])) =
      some ({ s with
        optarg := some (chars ++ [0]), optind := s.optind + 1, nextchar := none },
        charInt program.signedChar c) := by
  rcases hfound with hfound | hfound
  · cases hfound with
    | optional temp hc hfind hfirst hsecond =>
        simp only [takeOption, List.head?_cons, List.tail_cons, hfind, head?_terminated chars,
          Option.bind_eq_bind, Option.bind_some, if_neg hc, hfirst, hsecond, if_true, ne_eq,
          hne, not_false_iff, if_false]
  · cases hfound with
    | required temp second hc hfind hfirst hsecond hcolon =>
        simp only [takeOption, List.head?_cons, List.tail_cons, hfind, head?_terminated chars,
          Option.bind_eq_bind, Option.bind_some, if_neg hc, hfirst, hsecond, if_true,
          if_neg hcolon, ne_eq, hne, not_false_iff, if_false]

theorem takeOption_optional_alone (hfound : Found program.optstring c .optional) :
    program.takeOption s [c, 0] =
      some ({ s with optarg := none, optind := s.optind + 1, nextchar := none },
        charInt program.signedChar c) := by
  cases hfound with
  | optional temp hc hfind hfirst hsecond =>
      simp only [takeOption, List.head?_cons, List.tail_cons, hfind, Option.bind_eq_bind,
        Option.bind_some, if_neg hc, hfirst, hsecond, if_true, ne_eq, not_true_eq_false,
        if_false]

/-- A separate argument. -/
theorem takeOption_separate {word : List Byte} (hne : s.optind + 1 ≠ program.argc)
    (hword : program.arg? (s.optind + 1) = some word)
    (hfound : Found program.optstring c .required) :
    program.takeOption s [c, 0] =
      some ({ s with optarg := some word, optind := s.optind + 2, nextchar := none },
        charInt program.signedChar c) := by
  cases hfound with
  | required temp second hc hfind hfirst hsecond hcolon =>
      simp only [takeOption, List.head?_cons, List.tail_cons, hfind, Option.bind_eq_bind,
        Option.bind_some, if_neg hc, hfirst, hsecond, if_true, if_neg hcolon, ne_eq,
        not_true_eq_false, if_false, if_neg hne, hword]

/-- An argument that is missing. -/
theorem takeOption_missing (hargc : s.optind + 1 = program.argc) (hoptarg : s.optarg = none)
    (hfound : Found program.optstring c .required) :
    ∃ s', program.takeOption s [c, 0] =
        some (s', if program.optstring.chars.head? = some 0x3A then 0x3A else 0x3F) ∧
      s'.optarg = none ∧ s'.optopt = charInt program.signedChar c ∧ s'.nextchar = none ∧
      s'.optind = s.optind + 1 := by
  have hsome : 0 < program.argc := by
    rw [← hargc]
    exact Nat.succ_pos s.optind
  obtain ⟨printed, hcomplain⟩ := complain_spec hsome
    { s with nextchar := some [0], optind := s.optind + 1 } (.requiresArgument · c)
  have hoptstring : program.optstring.terminated.head? =
      some (program.optstring.chars.head?.getD 0) := head?_terminated program.optstring.chars
  cases hfound with
  | required temp second hc hfind hfirst hsecond hcolon =>
      refine ⟨{ s with
        nextchar := none
        optind := s.optind + 1
        printed := printed
        optopt := charInt program.signedChar c }, ?_, hoptarg, rfl, rfl, rfl⟩
      simp only [takeOption, List.head?_cons, List.tail_cons, hfind, Option.bind_eq_bind,
        Option.bind_some, if_neg hc, hfirst, hsecond, if_true, if_neg hcolon, ne_eq,
        not_true_eq_false, if_false, if_pos hargc, hcomplain, hoptstring]
      have hiff := head_eq_colon program.optstring.chars
      by_cases hmark : program.optstring.chars.head? = some 0x3A
      · rw [if_pos hmark, if_pos (hiff.mpr hmark)]
      · rw [if_neg hmark, if_neg (mt hiff.mp hmark)]

/-- The option at the pointer is delivered, and its argument with it. -/
theorem takeOption_spec (dash : Bool) (hnonzero : 0 ∉ c :: chars) (hpos : 0 < s.optind)
    (hlt : s.optind < program.argc) (hoptarg : s.optarg = none) :
    Delivers program (program.takeOption s (c :: (chars ++ [0])))
      (pending program.optstring.chars dash (c :: chars)
        (program.wordsFrom (s.optind + 1))) := by
  have hrest : 0 ∉ chars := fun h => hnonzero (List.mem_cons_of_mem c h)
  have hfound := found program.optstring c
  cases hkind : kind program.optstring.chars c with
  | unknown =>
      rw [hkind] at hfound
      have hpending : pending program.optstring.chars dash (c :: chars)
          (program.wordsFrom (s.optind + 1)) = ⟨dash, .unknown c⟩ ::
            pending program.optstring.chars false chars (program.wordsFrom (s.optind + 1)) := by
        simp only [pending, cluster, hkind, List.cons_append]
      obtain ⟨s', htake, hnone, hoptopt, hat⟩ :=
        takeOption_unknown hnonzero hpos hlt hoptarg hfound
      rw [hpending]
      exact ⟨s', 0x3F, htake, ⟨rfl, hnone, hoptopt⟩, hat⟩
  | flag =>
      rw [hkind] at hfound
      have hpending : pending program.optstring.chars dash (c :: chars)
          (program.wordsFrom (s.optind + 1)) = ⟨dash, .option c none⟩ ::
            pending program.optstring.chars false chars (program.wordsFrom (s.optind + 1)) := by
        simp only [pending, cluster, hkind, List.cons_append]
      rw [hpending]
      exact ⟨moved s chars, _, takeOption_flag hfound, ⟨rfl, hoptarg⟩,
        at_behind hrest hpos hlt rfl (optind_moved hrest)⟩
  | optional =>
      rw [hkind] at hfound
      have hpending : pending program.optstring.chars dash (c :: chars)
          (program.wordsFrom (s.optind + 1)) =
            ⟨dash, .option c (if chars = [] then none else some chars)⟩ ::
              deliveries program.optstring.chars none (program.wordsFrom (s.optind + 1)) := by
        simp only [pending, cluster, hkind, List.cons_append, List.nil_append]
      rw [hpending]
      by_cases hempty : chars = []
      · rw [if_pos hempty, hempty]
        exact ⟨_, _, takeOption_optional_alone hfound, ⟨rfl, rfl⟩, at_next hlt rfl rfl⟩
      · have hne : chars.head?.getD 0 ≠ 0 := fun h => hempty ((head_eq_zero hrest).mp h)
        rw [if_neg hempty]
        exact ⟨_, _, takeOption_attached hne (Or.inl hfound), ⟨rfl, rfl⟩, at_next hlt rfl rfl⟩
  | required =>
      rw [hkind] at hfound
      by_cases hempty : chars = []
      · have hpending : pending program.optstring.chars dash (c :: chars)
            (program.wordsFrom (s.optind + 1)) =
              deliveries program.optstring.chars (some (dash, c))
                (program.wordsFrom (s.optind + 1)) := by
          simp only [pending, cluster, hkind, if_pos hempty, List.nil_append]
        rw [hpending, hempty]
        by_cases hlast : s.optind + 1 = program.argc
        · obtain ⟨s', htake, hnone, hoptopt, hnext, hind⟩ :=
            takeOption_missing hlast hoptarg hfound
          have hat := at_next hlt hnext hind
          rw [hlast, wordsFrom_argc] at hat ⊢
          exact ⟨s', _, htake, ⟨rfl, hnone, hoptopt⟩, hat⟩
        · obtain ⟨word, -, hword, hwords⟩ :=
            @wordsFrom_of_lt program (s.optind + 1) (by omega)
          rw [hwords]
          exact ⟨_, _, takeOption_separate hlast hword hfound, ⟨rfl, rfl⟩,
            .between (Or.inl rfl) (Nat.succ_pos _) (by simp only; omega)⟩
      · have hne : chars.head?.getD 0 ≠ 0 := fun h => hempty ((head_eq_zero hrest).mp h)
        have hpending : pending program.optstring.chars dash (c :: chars)
            (program.wordsFrom (s.optind + 1)) = ⟨dash, .option c (some chars)⟩ ::
              deliveries program.optstring.chars none (program.wordsFrom (s.optind + 1)) := by
          simp only [pending, cluster, hkind, if_neg hempty, List.cons_append, List.nil_append]
        rw [hpending]
        exact ⟨_, _, takeOption_attached hne (Or.inr hfound), ⟨rfl, rfl⟩, at_next hlt rfl rfl⟩

/-- A call delivers the next item, or there is none and it returns EOF. -/
theorem getopt_spec {items : List Delivery} (hat : At program s items) :
    (items = [] ∧ s.optind = program.argc ∧
      program.getopt s = some ({ s with optarg := none }, eof)) ∨
      Delivers program (program.getopt s) items := by
  cases hat with
  | between hused hpos hle =>
      have hend : atEnd { s with optarg := none } = some true := by
        rcases hused with hnext | hnext
        · rw [atEnd, hnext]
        · rw [atEnd, hnext]
          rfl
      by_cases hlast : s.optind = program.argc
      · apply Or.inl
        have hnone : deliveries program.optstring.chars none (program.wordsFrom s.optind) = [] := by
          rw [hlast, wordsFrom_argc, deliveries]
        refine ⟨hnone, hlast, ?_⟩
        simp only [getopt, if_neg (Nat.pos_iff_ne_zero.mp hpos), hend, Option.bind_eq_bind,
          Option.bind_some, if_true, if_pos hlast]
      · have hlt : s.optind < program.argc := lt_of_le_of_ne hle hlast
        apply Or.inr
        obtain ⟨word, hnonzero, harg, hwords⟩ := wordsFrom_of_lt hlt
        have hcall : program.getopt s = (do
            let first ← (word ++ [0]).head?
            if first ≠ 0x2D then
              some ({ s with optarg := some (word ++ [0]), optind := s.optind + 1 }, 1)
            else
              let second ← (word ++ [0])[1]?
              if second = 0 then
                some ({ s with optarg := some (word ++ [0]), optind := s.optind + 1 }, 1)
              else program.takeOption { s with optarg := none } ((word ++ [0]).drop 1)) := by
          simp only [getopt, if_neg (Nat.pos_iff_ne_zero.mp hpos), hend, Option.bind_eq_bind,
            Option.bind_some, if_true, if_neg hlast, harg]
        have hword : ∀ value, value = (1 : ℤ) → isCluster word = false →
            Delivers program
              (some ({ s with optarg := some (word ++ [0]), optind := s.optind + 1 }, value))
              (deliveries program.optstring.chars none
                (word :: program.wordsFrom (s.optind + 1))) := by
          intro value hvalue hplain
          rw [deliveries, hplain, if_neg Bool.false_ne_true]
          exact ⟨_, _, rfl, ⟨hvalue, rfl⟩, .between hused (Nat.succ_pos _) hlt⟩
        rw [hwords, hcall]
        cases word with
        | nil => exact hword 1 rfl rfl
        | cons first rest =>
            simp only [List.cons_append, List.head?_cons, Option.bind_eq_bind, Option.bind_some]
            by_cases hdash : first = 0x2D
            · subst hdash
              cases rest with
              | nil => exact hword 1 rfl rfl
              | cons c chars =>
                  have hrest : 0 ∉ c :: chars := fun h => hnonzero (List.mem_cons_of_mem _ h)
                  have hc : c ≠ 0 := fun h => hrest (h ▸ List.mem_cons_self)
                  have hoption := takeOption_spec (s := { s with optarg := none }) true hrest hpos
                    hlt rfl
                  have hcluster : deliveries program.optstring.chars none
                      ((0x2D :: c :: chars) :: program.wordsFrom (s.optind + 1)) =
                        pending program.optstring.chars true (c :: chars)
                          (program.wordsFrom (s.optind + 1)) := rfl
                  rw [if_neg (not_not_intro rfl), hcluster]
                  simp only [List.cons_append, List.getElem?_cons_succ, List.getElem?_cons_zero,
                    Option.bind_some, if_neg hc, List.drop_succ_cons, List.drop_zero]
                  exact hoption
            · rw [if_pos hdash]
              apply hword 1 rfl
              simpa [isCluster] using fun h => absurd h hdash
  | inside c chars hnext hnonzero hpos hlt =>
      apply Or.inr
      have hc : c ≠ 0 := fun h => hnonzero (h ▸ List.mem_cons_self)
      have hend : atEnd { s with optarg := none } = some false := by
        simp only [atEnd, hnext, List.head?_cons, Option.map_some, Option.some.injEq,
          beq_eq_false_iff_ne]
        exact hc
      have hoption := takeOption_spec (s := { s with optarg := none }) false hnonzero hpos hlt rfl
      have hcall : program.getopt s =
          program.takeOption { s with optarg := none } (c :: (chars ++ [0])) := by
        simp only [getopt, if_neg (Nat.pos_iff_ne_zero.mp hpos), hend, Option.bind_eq_bind,
          Option.bind_some, Bool.false_eq_true, if_false]
        rw [hnext]
        rfl
      rw [hcall]
      exact hoption

/-- The calls deliver what is left, one item each, and then EOF. -/
theorem calls_spec {items : List Delivery} (hat : At program s items) :
    ∃ results sEnd, program.calls (items.length + 1) s = some (results ++ [(eof, sEnd)]) ∧
      List.Forall₂ (fun delivery => program.Shows delivery.item) items results ∧
      sEnd.optind = program.argc := by
  induction items generalizing s with
  | nil =>
      have hcall := (getopt_spec hat).resolve_right id
      refine ⟨[], { s with optarg := none }, ?_, .nil, hcall.2.1⟩
      rw [List.length_nil, calls, hcall.2.2]
      rfl
  | cons delivery items ih =>
      have hnot : ¬(delivery :: items = [] ∧ s.optind = program.argc ∧
          program.getopt s = some ({ s with optarg := none }, eof)) :=
        fun h => List.cons_ne_nil delivery items h.1
      obtain ⟨s', value, hcall, hshows, hnext⟩ := (getopt_spec hat).resolve_left hnot
      obtain ⟨results, sEnd, hcalls, hall, hend⟩ := ih hnext
      refine ⟨(value, s') :: results, sEnd, ?_, .cons hshows hall, hend⟩
      rw [List.length_cons, calls, hcall]
      simp only [Option.bind_eq_bind, Option.bind_some, hcalls, List.cons_append]

end Program

/-! ## All items -/

/-- The characters of an option that waits for its argument. -/
def owed : Option (Bool × Byte) → List Byte
  | none => []
  | some (dash, c) => Delivery.text ⟨dash, .missing c⟩

/-- The options in an argument have its characters. -/
theorem text_cluster (optstring : List Byte) (dash : Bool) (chars : List Byte)
    (hdash : dash = true → chars ≠ []) :
    (cluster optstring dash chars).1.flatMap Delivery.text ++
        owed (cluster optstring dash chars).2 =
      if dash then 0x2D :: chars else chars := by
  induction chars generalizing dash with
  | nil =>
      cases dash with
      | false => rfl
      | true => exact absurd rfl (hdash rfl)
  | cons c chars ih =>
      have hrest := ih false (fun h => absurd h Bool.false_ne_true)
      rw [if_neg Bool.false_ne_true] at hrest
      cases hkind : kind optstring c with
      | unknown =>
          simp only [cluster, hkind, List.flatMap_cons, List.append_assoc, hrest]
          cases dash <;> rfl
      | flag =>
          simp only [cluster, hkind, List.flatMap_cons, List.append_assoc, hrest]
          cases dash <;> rfl
      | optional =>
          by_cases hempty : chars = []
          · simp only [cluster, hkind, if_pos hempty, List.flatMap_cons, List.flatMap_nil]
            rw [hempty]
            cases dash <;> rfl
          · simp only [cluster, hkind, if_neg hempty, List.flatMap_cons, List.flatMap_nil,
              List.append_nil, owed]
            cases dash <;> rfl
      | required =>
          by_cases hempty : chars = []
          · simp only [cluster, hkind, if_pos hempty, List.flatMap_nil, List.nil_append]
            rw [hempty]
            cases dash <;> rfl
          · simp only [cluster, hkind, if_neg hempty, List.flatMap_cons, List.flatMap_nil,
              List.append_nil, owed]
            cases dash <;> rfl

/-- The items of a command line have its characters, in their order. -/
theorem text_deliveries (optstring : List Byte) (waiting : Option (Bool × Byte))
    (words : List (List Byte)) :
    (deliveries optstring waiting words).flatMap Delivery.text = owed waiting ++ words.flatten := by
  induction words generalizing waiting with
  | nil =>
      rcases waiting with _ | ⟨dash, c⟩
      · rfl
      · rw [deliveries, List.flatMap_cons, List.flatMap_nil, List.flatten_nil]
        rfl
  | cons word words ih =>
      rcases waiting with _ | ⟨dash, c⟩
      · by_cases hcluster : isCluster word = true
        · have hparts := hcluster
          rw [isCluster, Bool.and_eq_true, beq_iff_eq, bne_iff_ne] at hparts
          have hword : 0x2D :: word.tail = word := List.cons_head?_tail hparts.1
          have hchars := text_cluster optstring true word.tail fun _ => hparts.2
          rw [if_pos rfl, hword] at hchars
          rw [deliveries, if_pos hcluster, List.flatMap_append, ih, ← List.append_assoc, hchars]
          rfl
        · simp only [deliveries, if_neg hcluster, List.flatMap_cons, ih]
          rfl
      · simp only [deliveries, List.flatMap_cons, ih]
        cases dash <;> simp [owed, Delivery.text, Item.text]

namespace Program

variable (program : Program)

/-- What the calls are to deliver. -/
def items : List Delivery :=
  deliveries program.optstring.chars none (program.argv.tail.map CString.chars)

/-- The calls deliver the items, which are all of the command line, and then return EOF, for
the first time, with `optind` at `argc`. -/
def Delivered : Prop :=
  (∃ results sEnd,
    program.calls (program.items.length + 1) start = some (results ++ [(eof, sEnd)]) ∧
      List.Forall₂ (fun delivery => program.Shows delivery.item) program.items results ∧
      (∀ result ∈ results, result.1 ≠ eof) ∧ sEnd.optind = program.argc) ∧
    program.items.flatMap Delivery.text = (program.argv.tail.map CString.chars).flatten

/-- An option whose character is -1 as an `int`. -/
def HasEof : Prop :=
  program.signedChar = true ∧
    ∃ delivery ∈ program.items, ∃ argument, delivery.item = .option 0xFF argument

variable {program}

theorem charInt_eq_eof (signedChar : Bool) (c : Byte) :
    charInt signedChar c = eof ↔ signedChar = true ∧ c = 0xFF := by
  cases signedChar with
  | false =>
      have hpos : (c.toNat : ℤ) ≠ eof := by
        rw [eof]
        omega
      exact iff_of_false hpos (fun h => absurd h.1 Bool.false_ne_true)
  | true =>
      have hchar : charInt true c = c.toInt := rfl
      have heof : eof = (0xFF : Byte).toInt := rfl
      rw [hchar, heof, BitVec.toInt_inj, eq_self_iff_true, true_and]

/-- A call returns EOF for no item but an option with that character. -/
theorem value_eq_eof {item : Item} {result : ℤ × State} (hshows : program.Shows item result) :
    result.1 = eof ↔
      program.signedChar = true ∧ ∃ argument, item = .option 0xFF argument := by
  obtain ⟨value, s⟩ := result
  cases item with
  | word text =>
      have hvalue : (1 : ℤ) ≠ eof := by decide
      rw [hshows.1]
      exact iff_of_false hvalue (fun ⟨_, _, h⟩ => Item.noConfusion h)
  | option c argument =>
      rw [hshows.1, charInt_eq_eof]
      apply and_congr_right
      intro _
      constructor
      · intro hc
        exact ⟨argument, by rw [hc]⟩
      · rintro ⟨_, hitem⟩
        injection hitem
  | unknown c =>
      have hvalue : (0x3F : ℤ) ≠ eof := by decide
      rw [hshows.1]
      exact iff_of_false hvalue (fun ⟨_, _, h⟩ => Item.noConfusion h)
  | missing c =>
      have hvalue : value ≠ eof := by
        rw [hshows.1]
        split_ifs <;> decide
      exact iff_of_false hvalue (fun ⟨_, _, h⟩ => Item.noConfusion h)

theorem forall_ne_eof {items : List Delivery} {results : List (ℤ × State)}
    (hall : List.Forall₂ (fun delivery => program.Shows delivery.item) items results) :
    (∀ result ∈ results, result.1 ≠ eof) ↔
      ¬(program.signedChar = true ∧
        ∃ delivery ∈ items, ∃ argument, delivery.item = .option 0xFF argument) := by
  induction hall with
  | nil => simp
  | cons hshows _ ih =>
      rw [List.forall_mem_cons, ih, ne_eq, value_eq_eof hshows, ← not_or, ← and_or_left]
      simp only [List.mem_cons, exists_eq_or_imp]

/-- The first call starts behind the name of the program. -/
theorem at_start (hargv : program.argv ≠ []) :
    At program { start with optind := 1 } program.items := by
  have hargc : 0 < program.argc := List.length_pos_iff.mpr hargv
  have hitems : program.items =
      deliveries program.optstring.chars none (program.wordsFrom 1) := by
    rw [items, wordsFrom, List.drop_one]
  rw [hitems]
  exact .between (Or.inl rfl) Nat.one_pos hargc

theorem calls_start (n : ℕ) :
    program.calls n start = program.calls n { start with optind := 1 } := by
  cases n <;> rfl

theorem not_delivered_nil (hargv : program.argv = []) : ¬program.Delivered := by
  rintro ⟨⟨results, sEnd, hcalls, -⟩, -⟩
  have hnone : program.calls (program.items.length + 1) start = none := by
    rw [calls_start, calls]
    simp [getopt, atEnd, start, argc, arg?, hargv]
  rw [hnone] at hcalls
  exact Option.some_ne_none _ hcalls.symm

/-- `getopt` goes through every command line with a program name, unless a signed `char` makes
an option EOF. -/
theorem delivered_iff (program : Program) :
    program.Delivered ↔ program.argv ≠ [] ∧ ¬program.HasEof := by
  by_cases hargv : program.argv = []
  · exact iff_of_false (not_delivered_nil hargv) fun h => h.1 hargv
  · obtain ⟨results, sEnd, hcalls, hall, hend⟩ := calls_spec (at_start hargv)
    rw [← calls_start] at hcalls
    constructor
    · rintro ⟨⟨results', sEnd', hcalls', hall', hvalues, -⟩, -⟩
      exact ⟨hargv, (forall_ne_eof hall').mp hvalues⟩
    · rintro ⟨-, heof⟩
      exact ⟨⟨results, sEnd, hcalls, hall, (forall_ne_eof hall).mpr heof, hend⟩,
        text_deliveries program.optstring.chars none _⟩

/-- No arguments at all: `optind` starts at 1 and is past `argc`. -/
theorem not_delivered :
    ¬(Program.mk false true [] ⟨[], List.not_mem_nil⟩).Delivered := by
  rintro ⟨⟨results, sEnd, hcalls, -⟩, -⟩
  exact Option.some_ne_none _ hcalls.symm

end Program

end Getopt

end Prazor.Crt
