import Mathlib.Data.List.TakeWhile

/-!
Formatted extraction from a text, as the standard streams do it.

An extraction skips white space and takes what belongs to the value; one that fails sets a flag
and every later one fails too, without touching the variable it should fill. A word or a number
that white space follows is read back as it is (`readWord_append`, `readNat_append`), and a word
that was read has at least one character and no white space (`readWord_some`).
-/

/-- What has not been read yet, and whether an extraction has failed. -/
structure TextStream where
  rest : List Char
  failed : Bool := false
deriving DecidableEq, Repr

namespace TextStream

/-- `std::isspace`, in the "C" locale. -/
def isSpace (c : Char) : Bool := [' ', '\t', '\n', '\x0b', '\x0c', '\r'].contains c

/-- `>>` to a string: what it is set to, if it is. -/
def readWord (s : TextStream) : Option (List Char) × TextStream :=
  if s.failed then (none, s)
  else match s.rest.dropWhile isSpace with
    | [] => (none, ⟨[], true⟩)
    | chars => (some (chars.takeWhile (!isSpace ·)), ⟨chars.dropWhile (!isSpace ·), false⟩)

/-- The digits of an unsigned number below `bound`. Without digits it is set to `0`, and where
they are too many to the largest number; both are failures. -/
def readDigits (bound : Nat) (negative : Bool) (chars : List Char) : Nat × TextStream :=
  let digits := chars.takeWhile (·.isDigit)
  let rest := chars.dropWhile (·.isDigit)
  let n := Nat.ofDigitChars 10 digits 0
  if digits = [] then (0, ⟨rest, true⟩)
  else if bound ≤ n then (bound - 1, ⟨rest, true⟩)
  else (if negative then (bound - n) % bound else n, ⟨rest, false⟩)

/-- `>>` to an unsigned number below `bound`: what it is set to, if it is. -/
def readNat (bound : Nat) (s : TextStream) : Option Nat × TextStream :=
  if s.failed then (none, s)
  else match s.rest.dropWhile isSpace with
    | [] => (none, ⟨[], true⟩)
    | '-' :: chars => (readDigits bound true chars).map some id
    | '+' :: chars => (readDigits bound false chars).map some id
    | chars => (readDigits bound false chars).map some id

/-! ## Words -/

/-- What can be read back as a word: some characters, none of them white space. -/
def IsWord (word : List Char) : Prop := word ≠ [] ∧ word.all (!isSpace ·)

instance (word : List Char) : Decidable (IsWord word) :=
  inferInstanceAs (Decidable (word ≠ [] ∧ word.all (!isSpace ·)))

theorem IsWord.not_isSpace {word : List Char} (h : IsWord word) {c : Char} (hc : c ∈ word) :
    isSpace c = false :=
  Bool.not_eq_true' (isSpace c) |>.mp (List.all_eq_true.mp h.2 c hc)

theorem dropWhile_isSpace_word {word rest : List Char} (h : IsWord word) (space : List Char)
    (hspace : ∀ c ∈ space, isSpace c) :
    (space ++ (word ++ rest)).dropWhile isSpace = word ++ rest := by
  rw [List.dropWhile_append_of_pos hspace]
  rcases word with _ | ⟨c, word⟩
  · exact absurd rfl h.1
  · rw [List.cons_append, List.dropWhile_cons, h.not_isSpace List.mem_cons_self]
    rfl

theorem readWord_append {word : List Char} (h : IsWord word) {space : List Char}
    (hspace : ∀ c ∈ space, isSpace c) {sep : Char} (hsep : isSpace sep) (rest : List Char) :
    readWord ⟨space ++ (word ++ sep :: rest), false⟩ = (some word, ⟨sep :: rest, false⟩) := by
  have hword : ∀ c ∈ word, (!isSpace c) = true := List.all_eq_true.mp h.2
  rw [readWord, if_neg Bool.false_ne_true, dropWhile_isSpace_word h space hspace]
  rcases word with _ | ⟨c, word⟩
  · exact absurd rfl h.1
  · simp only [List.cons_append]
    rw [← List.cons_append, List.takeWhile_append_of_pos hword, List.dropWhile_append_of_pos hword,
      List.takeWhile_cons, List.dropWhile_cons, hsep]
    simp

theorem readWord_some {s s' : TextStream} {word : List Char} (h : readWord s = (some word, s')) :
    IsWord word := by
  rw [readWord] at h
  split at h
  · cases h
  · split at h
    · cases h
    · rename_i chars hdrop
      cases h
      constructor
      · have hhead := List.head_dropWhile_not isSpace hdrop
        rcases hchars : s.rest.dropWhile isSpace with _ | ⟨c, tail⟩
        · exact absurd hchars hdrop
        · simp only [hchars, List.head_cons] at hhead
          rw [List.takeWhile_cons, hhead]
          exact List.cons_ne_nil _ _
      · exact List.all_eq_true.mpr fun c hc => by simpa using List.mem_takeWhile_imp hc

theorem failed_of_readWord_none {s s' : TextStream} (h : readWord s = (none, s')) : s'.failed := by
  rw [readWord] at h
  split at h
  · rename_i hfailed
    cases h
    exact hfailed
  · split at h
    · cases h
      rfl
    · cases h

theorem readWord_of_failed {s : TextStream} (h : s.failed) : readWord s = (none, s) := by
  rw [readWord, if_pos h]

/-! ## Numbers -/

theorem not_isSpace_of_isDigit {c : Char} (h : c.isDigit) : isSpace c = false := by
  have hnot : [' ', '\t', '\n', '\x0b', '\x0c', '\r'].all (!·.isDigit) := by decide
  rw [isSpace, ← Bool.not_eq_true, List.contains_iff_mem]
  intro hmem
  have hc := List.all_eq_true.mp hnot c hmem
  rw [h] at hc
  cases hc

theorem isWord_toDigits (n : Nat) : IsWord (Nat.toDigits 10 n) := by
  refine ⟨Nat.toDigits_ne_nil, List.all_eq_true.mpr fun c hc => ?_⟩
  rw [not_isSpace_of_isDigit (Nat.isDigit_of_mem_toDigits (by decide) (by decide) hc)]
  rfl

theorem readDigits_append {bound n : Nat} (hn : n < bound) {sep : Char}
    (hsep : sep.isDigit = false) (rest : List Char) :
    readDigits bound false (Nat.toDigits 10 n ++ sep :: rest) = (n, ⟨sep :: rest, false⟩) := by
  have hdigit : ∀ c ∈ Nat.toDigits 10 n, c.isDigit := fun c hc =>
    Nat.isDigit_of_mem_toDigits (by decide) (by decide) hc
  have htake : (Nat.toDigits 10 n ++ sep :: rest).takeWhile (·.isDigit) = Nat.toDigits 10 n := by
    rw [List.takeWhile_append_of_pos hdigit, List.takeWhile_cons, hsep]
    exact List.append_nil _
  have hdrop : (Nat.toDigits 10 n ++ sep :: rest).dropWhile (·.isDigit) = sep :: rest := by
    rw [List.dropWhile_append_of_pos hdigit, List.dropWhile_cons, hsep]
    rfl
  simp only [readDigits, htake, hdrop, Nat.ofDigitChars_ten_toDigits]
  rw [if_neg Nat.toDigits_ne_nil, if_neg (by omega)]
  rfl

theorem readNat_append {bound n : Nat} (hn : n < bound) {space : List Char}
    (hspace : ∀ c ∈ space, isSpace c) {sep : Char} (hsep : isSpace sep) (rest : List Char) :
    readNat bound ⟨space ++ (Nat.toDigits 10 n ++ sep :: rest), false⟩ =
      (some n, ⟨sep :: rest, false⟩) := by
  have hnot : sep.isDigit = false := by
    rw [← Bool.not_eq_true]
    intro h
    rw [not_isSpace_of_isDigit h] at hsep
    cases hsep
  have hread := readDigits_append hn hnot rest
  rw [readNat, if_neg Bool.false_ne_true, dropWhile_isSpace_word (isWord_toDigits n) space hspace]
  rcases hchars : Nat.toDigits 10 n with _ | ⟨c, chars⟩
  · exact absurd hchars Nat.toDigits_ne_nil
  · have hc : c.isDigit :=
      Nat.isDigit_of_mem_toDigits (by decide) (by decide) (hchars ▸ List.mem_cons_self)
    rw [hchars] at hread
    rw [List.cons_append] at hread ⊢
    split
    · rename_i heq
      cases heq
    · rename_i heq
      cases heq
      cases hc
    · rename_i heq
      cases heq
      cases hc
    · rw [hread]
      rfl

theorem readDigits_lt {bound : Nat} (hbound : 0 < bound) (negative : Bool) (chars : List Char) :
    (readDigits bound negative chars).1 < bound := by
  simp only [readDigits]
  split
  · exact hbound
  · split
    · exact Nat.sub_one_lt_of_lt hbound
    · rename_i hn
      rcases negative
      · exact Nat.not_le.mp hn
      · exact Nat.mod_lt _ hbound

theorem readNat_lt {bound n : Nat} (hbound : 0 < bound) {s s' : TextStream}
    (h : readNat bound s = (some n, s')) : n < bound := by
  rw [readNat] at h
  split at h
  · cases h
  · split at h
    · cases h
    all_goals
      cases h
      exact readDigits_lt hbound _ _

end TextStream
