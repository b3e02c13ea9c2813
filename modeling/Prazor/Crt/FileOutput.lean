import Prazor.Core.Guarded
import Prazor.Core.Payload

/-!
# Buffered output to a file

prlibc keeps the characters written to a file in a buffer of `STDIOLEN` bytes and
hands it to the simulator when it is full and when the file is closed.  The simulator
copies bytes until it meets a NUL, whatever length it was told.  The memory from the
buffer on is one array here, so that bytes behind the buffer can be copied too.
-/

namespace Prazor.Crt.File

/-- `STDIOLEN` -/
def stdiolen : ℕ := 1024

/-- A `FILE`: `_r` is the room left, and `_p` the next place in `data`. -/
structure Stream where
  r : ℕ
  p : ℕ
  data : Buffer

/-- A file that is being written: what the host's file was given, and the largest
number of bytes that a flush copied. -/
structure Session where
  file : Stream
  received : List Byte
  copied : ℕ

/-- The loop of the `fflush` backdoor, which has ended when it has met a NUL. -/
def copyText (data : Buffer) : ℕ → ℕ → Option (List Byte)
  | 0, _ => none
  | fuel + 1, i =>
      if data i = 0 then some [] else (copyText data fuel (i + 1)).map (data i :: ·)

/-- The backdoor copies at most what a 32-bit address reaches. -/
def backdoorFlush (data : Buffer) : Option (List Byte) := copyText data (2 ^ 32) 0

/-- `__sflush` -/
def sflush (session : Session) : Option Session :=
  (backdoorFlush session.file.data).map fun text =>
    { file :=
        { r := stdiolen
          p := 0
          data := fun i => if i < stdiolen then 0 else session.file.data i }
      received := session.received ++ text
      copied := max session.copied (text.length + 1) }

/-- `pfputc` on a file, and the body of the loop of `fputs`. -/
def pfputc (session : Session) (c : Byte) : Option Session :=
  (if session.file.r = 0 then sflush session else some session).map fun session =>
    { session with file :=
        { r := session.file.r - 1
          p := session.file.p + 1
          data := Function.update session.file.data session.file.p c } }

/-- The characters of a text, those of `fputs` or those that `fprintf` makes. -/
def puts (session : Session) (text : List Byte) : Option Session :=
  Guarded.exec pfputc session text

/-- What a program does with a file: it writes texts to it, and it may store elsewhere. -/
inductive Call where
  | fputs (text : List Byte)
  | fprintf (text : List Byte)
  | storeBehind (i : ℕ) (value : Byte)

def step (session : Session) : Call → Option Session
  | .fputs text => puts session text
  | .fprintf text => puts session text
  | .storeBehind i value =>
      some { session with file := { session.file with
        data := fun j => if j = stdiolen + i then value else session.file.data j } }

/-- `fopen` for writing, with this memory behind the buffer. -/
def fopen (behind : Buffer) : Session where
  file :=
    { r := stdiolen
      p := 0
      data := fun i => if i < stdiolen then 0 else behind (i - stdiolen) }
  received := []
  copied := 0

/-- `fclose`: every file is flushed, since the flags are combined with `|`. -/
def fclose (session : Session) : Option Session := sflush session

/-- A file that is opened, written and closed. -/
def output (behind : Buffer) (calls : List Call) : Option Session :=
  (Guarded.exec step (fopen behind) calls).bind fclose

/-- The characters of a call. -/
def Call.text : Call → List Byte
  | .fputs text | .fprintf text => text
  | .storeBehind _ _ => []

def textOf (calls : List Call) : List Byte := calls.flatMap Call.text

/-- The host has received the text, and no flush went beyond the buffer. -/
def Intact (text : List Byte) (session : Session) : Prop :=
  session.received = text ∧ session.copied ≤ stdiolen

/-! ## The backdoor -/

variable {data : Buffer} {fuel k n : ℕ} {text done : List Byte} {session next : Session}

/-- The loop ends at the first NUL. -/
theorem copyText_eq (htext : ∀ i < text.length, text[i]? = some (data (k + i)))
    (hnonzero : ∀ c ∈ text, c ≠ 0) (hend : data (k + text.length) = 0)
    (hfuel : text.length < fuel) : copyText data fuel k = some text := by
  induction text generalizing fuel k with
  | nil =>
      cases fuel with
      | zero => cases hfuel
      | succ fuel => exact if_pos hend
  | cons c rest ih =>
      cases fuel with
      | zero => cases hfuel
      | succ fuel =>
          have hnext (i : ℕ) : data (k + 1 + i) = data (k + (i + 1)) := by
            rw [Nat.add_assoc, Nat.add_comm 1 i]
          have hfirst : data k = c := (Option.some.inj (htext 0 (Nat.succ_pos _))).symm
          have hrest : copyText data fuel (k + 1) = some rest := by
            refine ih (fun i hi => ?_) (fun d hd => hnonzero d (List.mem_cons_of_mem c hd)) ?_
              (Nat.lt_of_succ_lt_succ hfuel)
            · rw [hnext]
              exact htext (i + 1) (Nat.succ_lt_succ hi)
            · rw [hnext]
              exact hend
          rw [copyText, hfirst, if_neg (hnonzero c List.mem_cons_self), hrest]
          rfl

/-- It does not end before. -/
theorem le_length_of_copyText (hcopy : copyText data fuel k = some text)
    (hnonzero : ∀ i < n, data (k + i) ≠ 0) : n ≤ text.length := by
  induction fuel generalizing k n text with
  | zero => cases hcopy
  | succ fuel ih =>
      cases n with
      | zero => exact Nat.zero_le _
      | succ n =>
          rw [copyText, if_neg (by simpa using hnonzero 0 (Nat.succ_pos n))] at hcopy
          obtain ⟨rest, hrest, rfl⟩ := Option.map_eq_some_iff.mp hcopy
          have hle : n ≤ rest.length := ih hrest fun i hi => by
            have := hnonzero (i + 1) (Nat.succ_lt_succ hi)
            rwa [Nat.add_comm i 1, ← Nat.add_assoc] at this
          exact Nat.succ_le_succ hle

/-! ## A buffer that fills -/

/-- No flush has been made yet: the characters written are in the buffer, and zeros
follow them there. -/
structure Filling (session : Session) (done : List Byte) : Prop where
  length_le : done.length ≤ stdiolen
  room : session.file.r = stdiolen - done.length
  place : session.file.p = done.length
  chars : ∀ i < done.length, done[i]? = some (session.file.data i)
  zeros : ∀ i, done.length ≤ i → i < stdiolen → session.file.data i = 0
  received : session.received = []
  copied : session.copied = 0

/-- A flush went beyond the buffer, which more characters than it holds made happen. -/
structure Overrun (session : Session) (done : List Byte) : Prop where
  copied : stdiolen < session.copied
  length_lt : stdiolen < done.length

theorem filling_fopen (behind : Buffer) : Filling (fopen behind) [] where
  length_le := Nat.zero_le _
  room := rfl
  place := rfl
  chars _ hi := absurd hi (Nat.not_lt_zero _)
  zeros _ _ hi := if_pos hi
  received := rfl
  copied := rfl

/-- A character for which there is room. -/
theorem Filling.pfputc {c : Byte} (hfilling : Filling session done)
    (hroom : done.length < stdiolen) :
    ∃ next, File.pfputc session c = some next ∧ Filling next (done ++ [c]) := by
  have hr : session.file.r ≠ 0 := by
    rw [hfilling.room]
    omega
  refine ⟨_, by rw [File.pfputc, if_neg hr, Option.map_some], ?_⟩
  constructor
  case length_le => simpa using hroom
  case room =>
    rw [hfilling.room, List.length_append, List.length_singleton]
    dsimp only
    omega
  case place => simp [hfilling.place]
  case received => exact hfilling.received
  case copied => exact hfilling.copied
  case chars =>
    intro i hi
    rw [List.length_append, List.length_singleton] at hi
    dsimp only
    rw [hfilling.place]
    rcases Nat.lt_succ_iff_lt_or_eq.mp hi with hold | rfl
    · rw [List.getElem?_append_left hold, hfilling.chars i hold,
        Function.update_of_ne (Nat.ne_of_lt hold)]
    · simp
  case zeros =>
    intro i hle hi
    rw [List.length_append, List.length_singleton] at hle
    dsimp only
    rw [hfilling.place, Function.update_of_ne (by omega)]
    exact hfilling.zeros i (by omega) hi

/-- A flush of a full buffer goes beyond it. -/
theorem Filling.overrun (hfilling : Filling session done) (hnonzero : ∀ c ∈ done, c ≠ 0)
    (hfull : done.length = stdiolen) (hflush : sflush session = some next) :
    stdiolen < next.copied := by
  obtain ⟨text, htext, rfl⟩ := Option.map_eq_some_iff.mp hflush
  have hle : stdiolen ≤ text.length := le_length_of_copyText htext fun i hi => by
    rw [Nat.zero_add]
    have hchar := hfilling.chars i (by omega)
    exact hnonzero _ (List.mem_of_getElem? hchar)
  calc stdiolen
    _ < text.length + 1 := Nat.lt_succ_of_le hle
    _ ≤ max session.copied (text.length + 1) := le_max_right _ _

theorem copied_le_of_sflush (hflush : sflush session = some next) :
    session.copied ≤ next.copied := by
  obtain ⟨text, -, rfl⟩ := Option.map_eq_some_iff.mp hflush
  exact le_max_left _ _

theorem copied_le_of_pfputc {c : Byte} (hput : pfputc session c = some next) :
    session.copied ≤ next.copied := by
  obtain ⟨mid, hmid, rfl⟩ := Option.map_eq_some_iff.mp hput
  split_ifs at hmid
  · have hle := copied_le_of_sflush hmid
    exact hle
  · cases hmid
    exact Nat.le_refl _

/-- A character for which there is no room makes the flush go beyond the buffer. -/
theorem Filling.pfputc_full {c : Byte} (hfilling : Filling session done)
    (hnonzero : ∀ c ∈ done, c ≠ 0) (hfull : done.length = stdiolen)
    (hput : File.pfputc session c = some next) : stdiolen < next.copied := by
  have hr : session.file.r = 0 := by
    rw [hfilling.room, hfull, Nat.sub_self]
  rw [File.pfputc, if_pos hr] at hput
  obtain ⟨flushed, hflush, rfl⟩ := Option.map_eq_some_iff.mp hput
  have hbeyond := hfilling.overrun hnonzero hfull hflush
  exact hbeyond

/-- The characters written so far are in the buffer, or a flush went beyond it. -/
def Tracked (session : Session) (done : List Byte) : Prop :=
  Filling session done ∨ Overrun session done

theorem Tracked.pfputc {c : Byte} (htracked : Tracked session done)
    (hnonzero : ∀ c ∈ done, c ≠ 0) (hput : File.pfputc session c = some next) :
    Tracked next (done ++ [c]) := by
  rcases htracked with hfilling | hoverrun
  · rcases Nat.lt_or_eq_of_le hfilling.length_le with hroom | hfull
    · obtain ⟨other, hother, hkept⟩ := hfilling.pfputc (c := c) hroom
      rw [hput, Option.some.injEq] at hother
      exact .inl (hother ▸ hkept)
    · exact .inr ⟨hfilling.pfputc_full hnonzero hfull hput, by simp [hfull]⟩
  · exact .inr ⟨lt_of_lt_of_le hoverrun.copied (copied_le_of_pfputc hput), by
      have := hoverrun.length_lt
      rw [List.length_append, List.length_singleton]
      omega⟩

theorem Tracked.puts (htracked : Tracked session done)
    (hnonzero : ∀ c ∈ done ++ text, c ≠ 0) (hputs : File.puts session text = some next) :
    Tracked next (done ++ text) := by
  induction text generalizing session done with
  | nil =>
      cases hputs
      rwa [List.append_nil]
  | cons c rest ih =>
      obtain ⟨mid, hmid, hrest⟩ := Guarded.exec_cons_eq_some.mp hputs
      have hmidTracked := htracked.pfputc
        (fun d hd => hnonzero d (List.mem_append_left _ hd)) hmid
      have happend : done ++ c :: rest = done ++ [c] ++ rest := by simp
      rw [happend] at hnonzero ⊢
      exact ih hmidTracked hnonzero hrest

/-- Texts for which there is room. -/
theorem Filling.puts (hfilling : Filling session done)
    (hroom : (done ++ text).length ≤ stdiolen) :
    ∃ next, File.puts session text = some next ∧ Filling next (done ++ text) := by
  induction text generalizing session done with
  | nil => exact ⟨session, rfl, by rwa [List.append_nil]⟩
  | cons c rest ih =>
      have happend : done ++ c :: rest = done ++ [c] ++ rest := by simp
      rw [happend] at hroom ⊢
      obtain ⟨mid, hmid, hmidFilling⟩ := hfilling.pfputc (c := c) (by
        simp only [List.length_append, List.length_singleton] at hroom
        omega)
      obtain ⟨next, hnext, hkept⟩ := ih hmidFilling hroom
      exact ⟨next, Guarded.exec_cons_eq_some.mpr ⟨mid, hmid, hnext⟩, hkept⟩

/-- Stores behind the buffer change neither. -/
theorem Filling.storeBehind {i : ℕ} {value : Byte} (hfilling : Filling session done) :
    Filling { session with file := { session.file with
      data := fun j => if j = stdiolen + i then value else session.file.data j } } done where
  length_le := hfilling.length_le
  room := hfilling.room
  place := hfilling.place
  chars j hj := by
    have hle := hfilling.length_le
    dsimp only
    rw [if_neg (by omega)]
    exact hfilling.chars j hj
  zeros j hle hj := by
    dsimp only
    rw [if_neg (by omega)]
    exact hfilling.zeros j hle hj
  received := hfilling.received
  copied := hfilling.copied

/-! ## Sessions -/

theorem Tracked.step {call : Call} (htracked : Tracked session done)
    (hnonzero : ∀ c ∈ done ++ call.text, c ≠ 0) (hstep : File.step session call = some next) :
    Tracked next (done ++ call.text) := by
  cases call with
  | fputs text => exact htracked.puts hnonzero hstep
  | fprintf text => exact htracked.puts hnonzero hstep
  | storeBehind i value =>
      cases hstep
      rw [Call.text, List.append_nil]
      exact htracked.imp Filling.storeBehind fun hoverrun => ⟨hoverrun.copied, hoverrun.length_lt⟩

theorem Tracked.exec {calls : List Call} (htracked : Tracked session done)
    (hnonzero : ∀ c ∈ done ++ textOf calls, c ≠ 0)
    (hrun : Guarded.exec File.step session calls = some next) :
    Tracked next (done ++ textOf calls) := by
  induction calls generalizing session done with
  | nil =>
      cases hrun
      rwa [textOf, List.flatMap_nil, List.append_nil]
  | cons call rest ih =>
      obtain ⟨mid, hmid, hrest⟩ := Guarded.exec_cons_eq_some.mp hrun
      have happend : done ++ textOf (call :: rest) = done ++ call.text ++ textOf rest := by
        rw [textOf, List.flatMap_cons, ← List.append_assoc]
        rfl
      rw [happend] at hnonzero ⊢
      exact ih (htracked.step (fun c hc => hnonzero c (List.mem_append_left _ hc)) hmid)
        hnonzero hrest

theorem Filling.exec {calls : List Call} (hfilling : Filling session done)
    (hroom : (done ++ textOf calls).length ≤ stdiolen) :
    ∃ next, Guarded.exec File.step session calls = some next ∧
      Filling next (done ++ textOf calls) := by
  induction calls generalizing session done with
  | nil => exact ⟨session, rfl, by rwa [textOf, List.flatMap_nil, List.append_nil]⟩
  | cons call rest ih =>
      have happend : done ++ textOf (call :: rest) = done ++ call.text ++ textOf rest := by
        rw [textOf, List.flatMap_cons, ← List.append_assoc]
        rfl
      rw [happend] at hroom ⊢
      have hfirst : (done ++ call.text).length ≤ stdiolen := by
        rw [List.length_append] at hroom
        omega
      obtain ⟨mid, hmid, hmidFilling⟩ : ∃ mid, File.step session call = some mid ∧
          Filling mid (done ++ call.text) := by
        cases call with
        | fputs text => exact hfilling.puts hfirst
        | fprintf text => exact hfilling.puts hfirst
        | storeBehind i value =>
            refine ⟨_, rfl, ?_⟩
            rw [Call.text, List.append_nil]
            exact hfilling.storeBehind
      obtain ⟨next, hnext, hkept⟩ := ih hmidFilling hroom
      exact ⟨next, Guarded.exec_cons_eq_some.mpr ⟨mid, hmid, hnext⟩, hkept⟩

/-- The buffer of a text for which there is room, with a NUL behind it. -/
theorem Filling.fclose (hfilling : Filling session done) (hnonzero : ∀ c ∈ done, c ≠ 0)
    (hroom : done.length < stdiolen) :
    ∃ next, File.fclose session = some next ∧ Intact done next := by
  have htext : backdoorFlush session.file.data = some done := by
    refine copyText_eq (fun i hi => ?_) hnonzero ?_ ?_
    · rw [Nat.zero_add, hfilling.chars i hi]
    · rw [Nat.zero_add]
      exact hfilling.zeros _ (Nat.le_refl _) hroom
    · exact lt_trans hroom (by decide)
  refine ⟨_, by rw [File.fclose, sflush, htext, Option.map_some], ?_, ?_⟩
  · rw [hfilling.received, List.nil_append]
  · rw [hfilling.copied, Nat.zero_max]
    exact hroom

/-- A text that fills the buffer makes a flush go beyond it. -/
theorem overrun_of_long {behind : Buffer} {calls : List Call}
    (hnonzero : ∀ c ∈ textOf calls, c ≠ 0) (hlong : stdiolen ≤ (textOf calls).length)
    (houtput : output behind calls = some session) : stdiolen < session.copied := by
  have hstart : Tracked (fopen behind) [] := .inl (filling_fopen behind)
  obtain ⟨written, hwritten, hclose⟩ := Option.bind_eq_some_iff.mp houtput
  rcases hstart.exec hnonzero hwritten with hfilling | hoverrun
  · rw [List.nil_append] at hfilling
    exact hfilling.overrun hnonzero (Nat.le_antisymm hfilling.length_le hlong) hclose
  · exact lt_of_lt_of_le hoverrun.copied (copied_le_of_sflush hclose)

theorem intact_of_short (behind : Buffer) {calls : List Call}
    (hnonzero : ∀ c ∈ textOf calls, c ≠ 0) (hshort : (textOf calls).length < stdiolen) :
    ∃ session, output behind calls = some session ∧ Intact (textOf calls) session := by
  have hroom : ([] ++ textOf calls).length ≤ stdiolen := hshort.le
  obtain ⟨written, hwritten, hfilling⟩ := (filling_fopen behind).exec hroom
  rw [List.nil_append] at hfilling
  obtain ⟨session, hclose, hintact⟩ := hfilling.fclose hnonzero hshort
  exact ⟨session, by rw [output, hwritten, Option.bind_some, hclose], hintact⟩

/-- What a program writes to a file reaches the host intact exactly if it is shorter
than the buffer. -/
theorem output_intact_iff (behind : Buffer) {calls : List Call}
    (hnonzero : ∀ c ∈ textOf calls, c ≠ 0) :
    (∃ session, output behind calls = some session ∧ Intact (textOf calls) session) ↔
      (textOf calls).length < stdiolen := by
  constructor
  · rintro ⟨session, houtput, hintact⟩
    by_contra hlong
    have hbeyond := overrun_of_long hnonzero (Nat.le_of_not_lt hlong) houtput
    exact absurd hintact.2 (Nat.not_le_of_lt hbeyond)
  · exact fun hshort => intact_of_short behind hnonzero hshort

theorem output_intact_hello :
    ∃ session, output (fun _ => 0xFF) [.fputs [0x48, 0x69], .fprintf [0x21]] = some session ∧
      Intact [0x48, 0x69, 0x21] session := by
  have hnonzero : ∀ c ∈ textOf [.fputs [0x48, 0x69], .fprintf [0x21]], c ≠ 0 := by decide
  exact (output_intact_iff (fun _ => 0xFF) hnonzero).mpr (by decide)

/-- A text of just `STDIOLEN` characters. -/
theorem not_output_intact :
    ¬∀ (behind : Buffer) (calls : List Call), (∀ c ∈ textOf calls, c ≠ 0) →
      ∃ session, output behind calls = some session ∧ Intact (textOf calls) session := by
  intro hclaim
  have htext : textOf [.fputs (List.replicate stdiolen 0x41)] =
      List.replicate stdiolen 0x41 := List.append_nil _
  have hnonzero : ∀ c ∈ textOf [.fputs (List.replicate stdiolen 0x41)], c ≠ 0 := by
    intro c hc
    rw [htext] at hc
    rw [List.eq_of_mem_replicate hc]
    decide
  obtain ⟨session, houtput, hintact⟩ := hclaim (fun _ => 0) _ hnonzero
  have hbeyond := overrun_of_long hnonzero (by rw [htext, List.length_replicate]) houtput
  exact absurd hintact.2 (Nat.not_le_of_lt hbeyond)

end Prazor.Crt.File
