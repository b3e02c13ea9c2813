import Prazor.Core.Payload

/-!
# Symbols by address

`argv_backdoor_setup` collects the symbols of the programs that are loaded, sorts them by address
before the next search, and finds by bisection the one that an address belongs to.  Where symbols
have different addresses, every search of every run gives the last symbol that is not above the
address, whatever was added in between.  A symbol that shares its address with another can be
missed.

`sort` is `std::sort`, and a name is the list of its characters, or `none` for NULL.
-/

namespace Prazor.Tenos

/-- `struct tenos_symbol` -/
structure TenosSymbol where
  name : List Char
  value : BitVec 64
  mode : Byte

/-- The symbols of `argv_backdoor_setup`. -/
structure SymbolTable where
  vsymbols : List TenosSymbol
  vsymbolsSorted : Bool

namespace SymbolTable

/-- `add_symb`.  A name that begins with `$` is not kept. -/
def addSymb (table : SymbolTable) (name : Option (List Char)) (addr : BitVec 64) (mode : Byte) :
    SymbolTable :=
  match name with
  | none => table
  | some name =>
      if name.head? = some '$' then table
      else ⟨table.vsymbols ++ [⟨name, addr, mode⟩], false⟩

/-- The loop that bisects. -/
def chopLoop (vsymbols : List TenosSymbol) (akey : BitVec 64) (left right : ℕ) :
    Option TenosSymbol :=
  if _hless : left < right then
    let mid := left + (right - left) / 2
    match vsymbols[mid]? with
    | none => none
    | some symbol =>
        if symbol.value ≤ akey ∧ ∀ next ∈ vsymbols[mid + 1]?, akey < next.value then some symbol
        else if symbol.value < akey then chopLoop vsymbols akey (mid + 1) right
        else chopLoop vsymbols akey left mid
  else none
termination_by right - left

/-- `find_best_symbol` -/
def findBestSymbol (sort : List TenosSymbol → List TenosSymbol) (table : SymbolTable)
    (akey : BitVec 64) : SymbolTable × Option TenosSymbol :=
  let vsymbols := if table.vsymbolsSorted then table.vsymbols else sort table.vsymbols
  (⟨vsymbols, true⟩, chopLoop vsymbols akey 0 vsymbols.length)

/-- The digits of `%lx`. -/
def lowerHex (value : BitVec 64) : List Char :=
  Nat.toDigits 16 value.toNat

/-- The digits of `%lX`. -/
def upperHex (value : BitVec 64) : List Char :=
  (Nat.toDigits 16 value.toNat).map Char.toUpper

/-- What `symbolic_dis64` leaves in a buffer of `n` bytes and returns, for the symbol it found. -/
def describe (n : ℕ) (a : BitVec 64) : Option TenosSymbol → List Char × ℕ
  | some x =>
      if x.value = a then
        (("0x".toList ++ upperHex a ++ " (".toList ++ x.name ++ ")".toList).take (n - 1), 1)
      else
        (("0x".toList ++ upperHex a ++ " (".toList ++ x.name ++ "+0x".toList ++
          lowerHex (a - x.value) ++ ")".toList).take (n - 1), 1)
  | none => (("0x".toList ++ upperHex a).take (n - 1), 0)

/-- `symbolic_dis64` -/
def symbolicDis64 (sort : List TenosSymbol → List TenosSymbol) (table : SymbolTable) (n : ℕ)
    (a : BitVec 64) : SymbolTable × (List Char × ℕ) :=
  if a ≠ 0 ∧ 0 < table.vsymbols.length then
    ((table.findBestSymbol sort a).1, describe n a (table.findBestSymbol sort a).2)
  else (table, describe n a none)

/-- A call of one of the two. -/
inductive Call where
  | addSymb (name : Option (List Char)) (addr : BitVec 64) (mode : Byte)
  | symbolicDis64 (n : ℕ) (a : BitVec 64)

/-- The texts of a run. -/
def run (sort : List TenosSymbol → List TenosSymbol) :
    SymbolTable → List Call → List (List Char × ℕ)
  | _, [] => []
  | table, .addSymb name addr mode :: calls => run sort (table.addSymb name addr mode) calls
  | table, .symbolicDis64 n a :: calls =>
      (table.symbolicDis64 sort n a).2 :: run sort (table.symbolicDis64 sort n a).1 calls

/-! ## The symbol an address belongs to -/

/-- The last symbol that is not above the address, if there is one. -/
def IsBest (symbols : List TenosSymbol) (akey : BitVec 64) : Option TenosSymbol → Prop
  | some s => s ∈ symbols ∧ s.value ≤ akey ∧ ∀ t ∈ symbols, t.value ≤ akey → t.value ≤ s.value
  | none => ∀ t ∈ symbols, akey < t.value

/-- How many symbols are at an address. -/
def countAt (symbols : List TenosSymbol) (akey : BitVec 64) : ℕ :=
  symbols.countP fun s => s.value = akey

theorem IsBest.of_perm {symbols symbols' : List TenosSymbol} {akey : BitVec 64}
    {found : Option TenosSymbol} (hbest : IsBest symbols akey found)
    (hperm : symbols.Perm symbols') : IsBest symbols' akey found := by
  cases found with
  | none => exact fun t ht => hbest t (hperm.mem_iff.mpr ht)
  | some s =>
      obtain ⟨hs, hle, hlast⟩ := hbest
      exact ⟨hperm.mem_iff.mp hs, hle, fun t ht => hlast t (hperm.mem_iff.mpr ht)⟩

section Search

variable {vs : List TenosSymbol} {akey : BitVec 64} {s t : TenosSymbol} {i j : ℕ}

theorem value_le (hsorted : vs.Pairwise fun s t => s.value ≤ t.value) (hs : vs[i]? = some s)
    (ht : vs[j]? = some t) (hij : i ≤ j) : s.value ≤ t.value := by
  obtain ⟨hi, rfl⟩ := List.getElem?_eq_some_iff.mp hs
  obtain ⟨hj, rfl⟩ := List.getElem?_eq_some_iff.mp ht
  rcases Nat.eq_or_lt_of_le hij with rfl | hlt
  · exact BitVec.le_refl _
  · exact List.pairwise_iff_getElem.mp hsorted i j hi hj hlt

/-- Two neighbours are not both at an address that one symbol has. -/
theorem not_both (hone : countAt vs akey ≤ 1) (hs : vs[i]? = some s) (ht : vs[i + 1]? = some t)
    (hsvalue : s.value = akey) (htvalue : t.value = akey) : False := by
  obtain ⟨hi, rfl⟩ := List.getElem?_eq_some_iff.mp hs
  obtain ⟨hj, rfl⟩ := List.getElem?_eq_some_iff.mp ht
  have hsplit : vs = vs.take i ++ vs[i] :: vs[i + 1] :: vs.drop (i + 2) := by
    rw [← List.drop_eq_getElem_cons hj, ← List.drop_eq_getElem_cons hi, List.take_append_drop]
  have hcount := congrArg (countAt · akey) hsplit
  simp only [countAt, List.countP_append, List.countP_cons, hsvalue, htvalue, decide_true,
    if_true] at hcount hone
  omega

/-- Where everything from an index on is above the address, the symbol before it is the best. -/
theorem isBest_of_gap (hsorted : vs.Pairwise fun s t => s.value ≤ t.value) (hs : vs[i]? = some s)
    (hle : s.value ≤ akey) (hgap : ∀ j t, i < j → vs[j]? = some t → akey < t.value) :
    IsBest vs akey (some s) := by
  refine ⟨List.mem_of_getElem? hs, hle, ?_⟩
  intro t ht htle
  obtain ⟨j, ht⟩ := List.getElem?_of_mem ht
  by_cases hj : j ≤ i
  · exact value_le hsorted ht hs hj
  · exact absurd (hgap j t (by omega) ht) (BitVec.not_lt.mpr htle)

/-- If a symbol is above the address, so are those that follow. -/
theorem above_of_above (hsorted : vs.Pairwise fun s t => s.value ≤ t.value)
    (habove : ∀ next ∈ vs[i]?, akey < next.value) (j : ℕ) (t : TenosSymbol) (hij : i ≤ j)
    (ht : vs[j]? = some t) : akey < t.value := by
  obtain ⟨hj, -⟩ := List.getElem?_eq_some_iff.mp ht
  have hi : i < vs.length := by omega
  have hnext : vs[i]? = some vs[i] := List.getElem?_eq_getElem hi
  exact Std.lt_of_lt_of_le (habove _ hnext) (value_le hsorted hnext ht hij)

/-- The loop finds nothing wrong, wherever it starts. -/
theorem isBest_of_chopLoop (hsorted : vs.Pairwise fun s t => s.value ≤ t.value) (left right : ℕ)
    (hfound : chopLoop vs akey left right = some s) : IsBest vs akey (some s) := by
  fun_induction chopLoop vs akey left right with
  | case1 => contradiction
  | case2 left right _ mid symbol hsymbol hbest =>
      cases hfound
      apply isBest_of_gap hsorted hsymbol hbest.1
      exact above_of_above hsorted hbest.2
  | case3 left right _ mid symbol hsymbol hnot hlow ih => exact ih hfound
  | case4 left right _ mid symbol hsymbol hnot hhigh ih => exact ih hfound
  | case5 => contradiction

/-- The loop does not miss a symbol that has its address alone. -/
theorem chopLoop_eq_none (hsorted : vs.Pairwise fun s t => s.value ≤ t.value)
    (hone : countAt vs akey ≤ 1) (left right : ℕ) (hright : right ≤ vs.length)
    (hbelow : left ≠ 0 → ∃ s, vs[left]? = some s ∧ s.value ≤ akey)
    (habove : ∀ i s, right ≤ i → vs[i]? = some s → akey < s.value)
    (hnone : chopLoop vs akey left right = none) : IsBest vs akey none := by
  fun_induction chopLoop vs akey left right with
  | case1 left right hless mid hmid =>
      have hinside : mid < vs.length := by omega
      simp [List.getElem?_eq_getElem hinside] at hmid
  | case2 => contradiction
  | case3 left right hless mid symbol hsymbol hnot hlow ih =>
      have hnext : ∃ next, vs[mid + 1]? = some next ∧ next.value ≤ akey := by
        by_contra hnext
        apply hnot
        refine ⟨Std.le_of_lt hlow, ?_⟩
        intro next hmem
        by_contra habove_next
        exact hnext ⟨next, hmem, BitVec.not_lt.mp habove_next⟩
      exact ih hright (fun _ => hnext) habove hnone
  | case4 left right hless mid symbol hsymbol hnot hhigh ih =>
      have hmid : mid < right := by omega
      have hge : akey ≤ symbol.value := BitVec.not_lt.mp hhigh
      -- the symbol in the middle is not the best one because the next one has its address too
      have hne : symbol.value ≠ akey := by
        intro heq
        apply hnot
        refine ⟨Std.le_of_eq heq, ?_⟩
        intro next hnext
        have hle := value_le hsorted hsymbol hnext (Nat.le_succ mid)
        rw [heq] at hle
        apply Std.lt_of_le_of_ne hle
        intro hsame
        exact not_both hone hsymbol hnext heq hsame.symm
      apply ih (by omega) hbelow
      · intro i t hi ht
        have habove_mid : akey < symbol.value := Std.lt_of_le_of_ne hge hne.symm
        exact Std.lt_of_lt_of_le habove_mid (value_le hsorted hsymbol ht hi)
      · exact hnone
  | case5 left right hdone =>
      have hleft : left = 0 := by
        by_contra hne
        obtain ⟨low, hlow, hle⟩ := hbelow hne
        exact BitVec.not_lt.mpr hle (habove left low (by omega) hlow)
      intro t ht
      obtain ⟨j, ht⟩ := List.getElem?_of_mem ht
      exact habove j t (by omega) ht

end Search

/-! ## Every text of a run -/

/-- What the texts of a run are to be, where `added` are the symbols there at its start: a text
names the best symbol or none, and it names the best one where the address is not zero and has at
most one symbol of its own. -/
def Described (added : List TenosSymbol) : List Call → List (List Char × ℕ) → Prop
  | [], texts => texts = []
  | .addSymb none _ _ :: calls, texts => Described added calls texts
  | .addSymb (some name) addr mode :: calls, texts =>
      Described (if name.head? = some '$' then added else added ++ [⟨name, addr, mode⟩]) calls texts
  | .symbolicDis64 n a :: calls, texts =>
      ∃ x rest, texts = describe n a x :: rest ∧
        (x ≠ none ∨ a ≠ 0 ∧ countAt added a ≤ 1 → IsBest added a x) ∧ Described added calls rest

/-- The vector has the symbols that were added, and the flag is right about it. -/
structure Kept (added : List TenosSymbol) (table : SymbolTable) : Prop where
  perm : table.vsymbols.Perm added
  sorted : table.vsymbolsSorted = true → table.vsymbols.Pairwise fun s t => s.value ≤ t.value

theorem countAt_perm {symbols symbols' : List TenosSymbol} (hperm : symbols.Perm symbols')
    (akey : BitVec 64) : countAt symbols akey = countAt symbols' akey :=
  hperm.countP_eq _

section Runs

variable {sort : List TenosSymbol → List TenosSymbol} {added : List TenosSymbol}
  {table : SymbolTable}

theorem kept_addSymb (hkept : Kept added table) (name : List Char) (addr : BitVec 64)
    (mode : Byte) :
    Kept (if name.head? = some '$' then added else added ++ [⟨name, addr, mode⟩])
      (table.addSymb (some name) addr mode) := by
  by_cases hrelative : name.head? = some '$'
  · simpa [addSymb, hrelative] using hkept
  · simp only [addSymb, hrelative, if_false]
    exact ⟨hkept.perm.append_right _, by simp⟩

theorem kept_findBestSymbol (hperm : ∀ symbols, (sort symbols).Perm symbols)
    (hsorts : ∀ symbols, (sort symbols).Pairwise fun s t => s.value ≤ t.value)
    (hkept : Kept added table) (akey : BitVec 64) :
    Kept added (table.findBestSymbol sort akey).1 := by
  cases hflag : table.vsymbolsSorted with
  | true => exact ⟨by simpa [findBestSymbol, hflag] using hkept.perm,
      fun _ => by simpa [findBestSymbol, hflag] using hkept.sorted hflag⟩
  | false => exact ⟨by simpa [findBestSymbol, hflag] using (hperm _).trans hkept.perm,
      fun _ => by simpa [findBestSymbol, hflag] using hsorts table.vsymbols⟩

/-- A search finds the best symbol, or it finds none. -/
theorem findBestSymbol_best (hkept : Kept added (table.findBestSymbol sort akey).1)
    (hfound : (table.findBestSymbol sort akey).2 ≠ none ∨ countAt added akey ≤ 1) :
    IsBest added akey (table.findBestSymbol sort akey).2 := by
  have hsorted := hkept.sorted rfl
  apply IsBest.of_perm _ hkept.perm
  cases hsearch : (table.findBestSymbol sort akey).2 with
  | some s => exact isBest_of_chopLoop hsorted _ _ hsearch
  | none =>
      have hone : countAt (table.findBestSymbol sort akey).1.vsymbols akey ≤ 1 := by
        rw [countAt_perm hkept.perm]
        exact hfound.resolve_left (by simp [hsearch])
      apply chopLoop_eq_none hsorted hone 0 _ le_rfl _ _ hsearch
      · simp
      · intro i s hi hs
        have hlength := (List.getElem?_eq_some_iff.mp hs).1
        omega

theorem run_described_of_kept (hperm : ∀ symbols, (sort symbols).Perm symbols)
    (hsorts : ∀ symbols, (sort symbols).Pairwise fun s t => s.value ≤ t.value)
    (hkept : Kept added table) (calls : List Call) :
    Described added calls (run sort table calls) := by
  induction calls generalizing added table with
  | nil => rfl
  | cons call calls ih =>
      cases call with
      | addSymb name addr mode =>
          cases name with
          | none => exact ih hkept
          | some name => exact ih (kept_addSymb hkept name addr mode)
      | symbolicDis64 n a =>
          by_cases hsearched : a ≠ 0 ∧ 0 < table.vsymbols.length
          · have hstep := kept_findBestSymbol hperm hsorts hkept a
            refine ⟨(table.findBestSymbol sort a).2, _, ?_, ?_, ih hstep⟩
            · simp only [run, symbolicDis64, if_pos hsearched]
            · intro hfound
              exact findBestSymbol_best hstep (hfound.imp_right And.right)
          · refine ⟨none, _, ?_, ?_, ih hkept⟩
            · simp only [run, symbolicDis64, if_neg hsearched]
            · intro hfound t ht
              have hzero : a ≠ 0 := (hfound.resolve_left (by simp)).1
              have hlength := List.length_pos_of_mem (hkept.perm.mem_iff.mpr ht)
              exact absurd ⟨hzero, hlength⟩ hsearched

end Runs

/-- Every text of every run of `add_symb` and `symbolic_dis64` names the last symbol that is not
above the address or none; for an address that is not zero and that no two symbols share it names
that one. -/
theorem run_described (sort : List TenosSymbol → List TenosSymbol)
    (hperm : ∀ symbols, (sort symbols).Perm symbols)
    (hsorts : ∀ symbols, (sort symbols).Pairwise fun s t => s.value ≤ t.value) (flag : Bool)
    (calls : List Call) : Described [] calls (run sort ⟨[], flag⟩ calls) := by
  have hempty : Kept [] ⟨[], flag⟩ := ⟨List.Perm.refl _, fun _ => List.Pairwise.nil⟩
  exact run_described_of_kept hperm hsorts hempty calls

/-- Two symbols are added out of order, and an address past the second is described. -/
theorem run_described_offset :
    run (List.insertionSort fun s t => s.value ≤ t.value) ⟨[], false⟩
        [.addSymb (some ['m', 'a', 'i', 'n']) 0x8100 2, .addSymb (some ['g', 'o']) 0x8000 2,
          .symbolicDis64 132 0x810C] = [("0x810C (main+0xc)".toList, 1)] ∧
      Described [] [.addSymb (some ['m', 'a', 'i', 'n']) 0x8100 2,
          .addSymb (some ['g', 'o']) 0x8000 2, .symbolicDis64 132 0x810C]
        (run (List.insertionSort fun s t => s.value ≤ t.value) ⟨[], false⟩
          [.addSymb (some ['m', 'a', 'i', 'n']) 0x8100 2, .addSymb (some ['g', 'o']) 0x8000 2,
            .symbolicDis64 132 0x810C]) := by
  have htotal : Std.Total fun s t : TenosSymbol => s.value ≤ t.value :=
    ⟨fun s t => BitVec.le_total s.value t.value⟩
  have htrans : IsTrans TenosSymbol fun s t => s.value ≤ t.value :=
    ⟨fun _ _ _ => BitVec.le_trans⟩
  constructor
  · simp +decide [run, addSymb, symbolicDis64, findBestSymbol, List.orderedInsert, chopLoop,
      describe]
  · apply run_described
    · exact List.perm_insertionSort _
    · exact List.pairwise_insertionSort _

end SymbolTable

end Prazor.Tenos
