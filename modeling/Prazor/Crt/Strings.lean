import Prazor.Core.Payload

/-!
# Strings of the C library

A string is its characters without the NUL behind them.  A pointer into it is the list of
what can be read from there on, the NUL being the last; `none` is a read behind the NUL.
-/

namespace Prazor.Crt

/-- A string: characters that are not NUL. -/
structure CString where
  chars : List Byte
  nonzero : 0 ∉ chars

namespace CString

/-- What the memory holds from the string's address on. -/
def terminated (s : CString) : List Byte := s.chars ++ [0]

end CString

/-! ## `strstr` -/

/-- The inner loop of `strstr`: whether the end of the needle is met before a difference. -/
def compareLoop : (bp sp : List Byte) → Option Bool
  | _, [] => none
  | bp, s :: sp =>
      if s = 0 then some true
      else
        match bp with
        | [] => none
        | b :: bp => if b = s then compareLoop bp sp else some false

/-- The outer loop of `strstr` from an index of the haystack on. -/
def searchLoop (needle : List Byte) : List Byte → ℕ → Option (Option ℕ)
  | [], _ => none
  | c :: rest, i =>
      if c = 0 then some none
      else
        match compareLoop (c :: rest) needle with
        | some true => some (some i)
        | some false => searchLoop needle rest (i + 1)
        | none => none

/-- `strstr`: the index of the returned address in the haystack, or 0. -/
def strstr (haystack needle : List Byte) : Option (Option ℕ) :=
  match needle with
  | [] => none
  | n :: _ => if n = 0 then some (some 0) else searchLoop needle haystack 0

/-- The needle stands in the haystack at an index. -/
def OccursAt (needle haystack : List Byte) (i : ℕ) : Prop :=
  i ≤ haystack.length ∧ needle <+: haystack.drop i

/-- The index is the first one at which the needle stands, if there is one. -/
def FirstOccurrence (needle haystack : List Byte) : Option ℕ → Prop
  | some i => OccursAt needle haystack i ∧ ∀ j < i, ¬OccursAt needle haystack j
  | none => ∀ i, ¬OccursAt needle haystack i

/-- The comparison stops at the end of the needle or at a difference, which the NUL of the
haystack is. -/
theorem compareLoop_spec {text pattern : List Byte} (hpattern : 0 ∉ pattern) :
    compareLoop (text ++ [0]) (pattern ++ [0]) = some (decide (pattern <+: text)) := by
  induction pattern generalizing text with
  | nil =>
      rw [decide_eq_true List.nil_prefix]
      cases text <;> rfl
  | cons p pattern ih =>
      rw [List.mem_cons, not_or] at hpattern
      cases text with
      | nil =>
          have hnot : ¬(p :: pattern) <+: [] := fun h => List.cons_ne_nil _ _ (List.prefix_nil.mp h)
          rw [decide_eq_false hnot]
          simp only [List.cons_append, List.nil_append, compareLoop, if_neg (Ne.symm hpattern.1),
            if_neg hpattern.1]
      | cons c text =>
          simp only [List.cons_append, compareLoop, if_neg (Ne.symm hpattern.1)]
          by_cases hsame : c = p
          · rw [if_pos hsame, ih hpattern.2]
            simp only [List.cons_prefix_cons, hsame, true_and]
          · have hnot : ¬(p :: pattern) <+: c :: text := fun h =>
              hsame (List.cons_prefix_cons.mp h).1.symm
            rw [if_neg hsame, decide_eq_false hnot]

/-- The search from an index on goes through the haystack's suffixes. -/
theorem searchLoop_spec {text pattern : List Byte} (htext : 0 ∉ text) (hpattern : 0 ∉ pattern)
    (hpos : pattern ≠ []) (start : ℕ) :
    ∃ found, searchLoop (pattern ++ [0]) (text ++ [0]) start = some (found.map (start + ·)) ∧
      FirstOccurrence pattern text found := by
  induction text generalizing start with
  | nil =>
      refine ⟨none, rfl, fun i hoccurs => ?_⟩
      rw [OccursAt, List.drop_nil, List.prefix_nil] at hoccurs
      exact hpos hoccurs.2
  | cons c text ih =>
      rw [List.mem_cons, not_or] at htext
      have hcompare : compareLoop (c :: (text ++ [0])) (pattern ++ [0]) =
          some (decide (pattern <+: c :: text)) := @compareLoop_spec (c :: text) pattern hpattern
      rw [List.cons_append, searchLoop, if_neg (Ne.symm htext.1), hcompare]
      by_cases hhere : pattern <+: c :: text
      · rw [decide_eq_true hhere]
        exact ⟨some 0, rfl, ⟨Nat.zero_le _, hhere⟩, fun j hj => absurd hj (Nat.not_lt_zero j)⟩
      · rw [decide_eq_false hhere]
        obtain ⟨found, hsearch, hfirst⟩ := ih htext.2 (start + 1)
        -- an occurrence further on is one in the rest of the haystack
        have hshift : ∀ i, OccursAt pattern (c :: text) (i + 1) ↔ OccursAt pattern text i := by
          intro i
          rw [OccursAt, OccursAt, List.length_cons, Nat.succ_le_succ_iff, List.drop_succ_cons]
        have hzero : ¬OccursAt pattern (c :: text) 0 := fun h => hhere h.2
        refine ⟨found.map (· + 1), ?_, ?_⟩
        · simp only [hsearch, Option.map_map]
          congr 2
          funext i
          simp only [Function.comp]
          omega
        · cases found with
          | none =>
              intro i
              cases i with
              | zero => exact hzero
              | succ i => exact fun h => hfirst i ((hshift i).mp h)
          | some k =>
              refine ⟨(hshift k).mpr hfirst.1, fun j hj => ?_⟩
              cases j with
              | zero => exact hzero
              | succ j => exact fun h => hfirst.2 j (Nat.lt_of_succ_lt_succ hj) ((hshift j).mp h)

/-- `strstr` finds the first occurrence and reads neither string behind its NUL. -/
theorem strstr_first (haystack needle : CString) :
    ∃ found, strstr haystack.terminated needle.terminated = some found ∧
      FirstOccurrence needle.chars haystack.chars found := by
  obtain ⟨text, htext⟩ := haystack
  obtain ⟨pattern, hpattern⟩ := needle
  cases pattern with
  | nil => exact ⟨some 0, rfl, ⟨Nat.zero_le _, List.nil_prefix⟩, fun j hj =>
      absurd hj (Nat.not_lt_zero j)⟩
  | cons p pattern =>
      obtain ⟨found, hsearch, hfirst⟩ :=
        searchLoop_spec htext hpattern (List.cons_ne_nil p pattern) 0
      refine ⟨found, ?_, hfirst⟩
      have hne : p ≠ 0 := fun h => hpattern (h ▸ List.mem_cons_self)
      have hmap : found.map (0 + ·) = found := by
        simp only [Nat.zero_add, Option.map_id']
      rw [hmap] at hsearch
      simp only [CString.terminated, List.cons_append, strstr, if_neg hne]
      exact hsearch

/-- An occurrence that overlaps a partial one, at the very end of the haystack. -/
example : strstr [0x61, 0x61, 0x62, 0] [0x61, 0x62, 0] = some (some 1) := by decide

end Prazor.Crt
