import HuaDB.Lib.Wildcards
import HuaDB.Expressions

/-!
LIKE, which is evaluated by a regular expression.

The pattern is put into the syntax of ECMAScript by `%` to `.*` and `_` to `.`, and matched on
UTF-16. So the characters of that syntax are not matched by themselves, `.` does not match the
end of a line, and it matches one code unit, which is half of a character outside of the basic
plane.
-/

namespace HuaDB

open Wildcards

/-! ## Meaning -/

namespace Like

/-- `%` matches any sequence, `_` one character, and another character itself. -/
def wildcard (c : Char) : Wildcard Char :=
  if c = '%' then .many else if c = '_' then .one else .lit c

/-- The subject is of a pattern. -/
def Matches (pattern subject : List Char) : Prop :=
  Wildcards.Matches (fun _ => True) (pattern.map wildcard) subject

/-! ## Encodings -/

def utf8 (s : List Char) : List UInt8 := s.flatMap String.utf8EncodeChar

/-- The code units of `std::codecvt_utf8_utf16`. -/
def utf16 (c : Char) : List Nat :=
  if c.toNat < 0x10000 then [c.toNat]
  else [0xD800 + (c.toNat - 0x10000) / 0x400, 0xDC00 + (c.toNat - 0x10000) % 0x400]

/-- The second code unit of a pair. -/
def IsTrail (u : Nat) : Prop := 0xDC00 ≤ u ∧ u < 0xE000

theorem toNat_lt_or (c : Char) : c.toNat < 0xD800 ∨ 0xDFFF < c.toNat ∧ c.toNat < 0x110000 :=
  c.valid

theorem isCode_utf16 : IsCode utf16 IsTrail where
  lead c := by
    have hc := toNat_lt_or c
    by_cases h : c.toNat < 0x10000
    · refine ⟨c.toNat, [], if_pos h, ?_, fun u hu => (List.not_mem_nil hu).elim⟩
      rintro ⟨hle, hlt⟩
      omega
    · refine ⟨_, _, if_neg h, ?_, List.forall_mem_singleton.mpr ?_⟩
      · rintro ⟨hle, hlt⟩
        omega
      · constructor <;> omega
  cancel {c d us vs} h := by
    have hc := toNat_lt_or c
    have hd := toNat_lt_or d
    rw [utf16, utf16] at h
    by_cases hc' : c.toNat < 0x10000
    · by_cases hd' : d.toNat < 0x10000
      · rw [if_pos hc', if_pos hd'] at h
        obtain ⟨hcode, hrest⟩ := List.cons_eq_cons.mp h
        exact ⟨Char.toNat_inj.mp hcode, hrest⟩
      · rw [if_pos hc', if_neg hd'] at h
        obtain ⟨hcode, -⟩ := List.cons_eq_cons.mp h
        omega
    · by_cases hd' : d.toNat < 0x10000
      · rw [if_neg hc', if_pos hd'] at h
        obtain ⟨hcode, -⟩ := List.cons_eq_cons.mp h
        omega
      · rw [if_neg hc', if_neg hd'] at h
        obtain ⟨hhigh, h⟩ := List.cons_eq_cons.mp h
        obtain ⟨hlow, hrest⟩ := List.cons_eq_cons.mp h
        exact ⟨Char.toNat_inj.mp (by omega), hrest⟩

/-! ## `std::wregex` -/

/-- The characters that have a meaning in a regular expression. -/
def isSyntaxCharacter (u : Nat) : Bool :=
  u ∈ ['^', '$', '\\', '.', '*', '+', '?', '(', ')', '[', ']', '{', '}', '|'].map Char.toNat

/-- What `.` does not match: LF, CR, LS and PS. -/
def isLineTerminator (u : Nat) : Bool := u ∈ [0x0A, 0x0D, 0x2028, 0x2029]

/-- A wildcard in a regular expression. -/
def spell : Wildcard Nat → List Nat
  | .many => ['.'.toNat, '*'.toNat]
  | .one => ['.'.toNat]
  | .lit u => [u]

/-- `std::wregex` on the expressions of characters, `.` and `.*`: it matches code unit by
code unit, and `.` no line terminator. -/
def IsECMAScript (regexMatch : RegexMatch) : Prop :=
  ∀ (text source : List Char) (ws : List (Wildcard Nat)),
    source.flatMap utf16 = ws.flatMap spell → (∀ u ∈ literals ws, isSyntaxCharacter u = false) →
      ∃ b, regexMatch (utf8 text) (utf8 source) = .ok b ∧
        (b = true ↔
          Wildcards.Matches (fun u => isLineTerminator u = false) ws (text.flatMap utf16))

/-! ## The expression of a pattern -/

/-- The two replacements, on characters. -/
def replaced (c : Char) : List Char :=
  if c = '%' then ['.', '*'] else if c = '_' then ['.'] else [c]

theorem le_toNat_ofNat {n : Nat} (hle : 0x80 ≤ n) (hlt : n < 0x100) :
    0x80 ≤ (UInt8.ofNat n).toNat := by
  rw [UInt8.toNat_ofNat', Nat.mod_eq_of_lt hlt]
  exact hle

/-- The bytes of a character are itself, or are no characters. -/
theorem mem_utf8EncodeChar {c : Char} {b : UInt8} (h : b ∈ String.utf8EncodeChar c) :
    b.toNat = c.toNat ∨ 0x80 ≤ b.toNat := by
  unfold String.utf8EncodeChar at h
  dsimp only at h
  split_ifs at h with h₁ h₂ h₃ <;>
    simp only [List.mem_cons, List.not_mem_nil, or_false] at h
  · left
    rw [h, UInt8.toNat_ofNat', Nat.mod_eq_of_lt (by omega)]
    rfl
  · rcases h with rfl | rfl
    · exact .inr (le_toNat_ofNat (by omega) (by omega))
    · exact .inr (le_toNat_ofNat (by omega) (by omega))
  · rcases h with rfl | rfl | rfl
    · exact .inr (le_toNat_ofNat (by omega) (by omega))
    · exact .inr (le_toNat_ofNat (by omega) (by omega))
    · exact .inr (le_toNat_ofNat (by omega) (by omega))
  · rcases h with rfl | rfl | rfl | rfl
    · exact .inr (le_toNat_ofNat (by omega) (by omega))
    · exact .inr (le_toNat_ofNat (by omega) (by omega))
    · exact .inr (le_toNat_ofNat (by omega) (by omega))
    · exact .inr (le_toNat_ofNat (by omega) (by omega))

theorem patternOf_append (s t : List UInt8) :
    Comparison.patternOf (s ++ t) = Comparison.patternOf s ++ Comparison.patternOf t := by
  rw [Comparison.patternOf, List.flatMap_append, List.map_append]
  rfl

theorem patternOf_of_not_mem {s : List UInt8}
    (h : ∀ b ∈ s, b ≠ '%'.toUInt8 ∧ b ≠ '_'.toUInt8) : Comparison.patternOf s = s := by
  induction s with
  | nil => rfl
  | cons b s ih =>
      rcases List.forall_mem_cons.mp h with ⟨⟨hmany, hone⟩, hs⟩
      have hself : Comparison.patternOf [b] = [b] := by
        simp [Comparison.patternOf, hmany, hone]
      rw [← List.singleton_append, patternOf_append, hself, ih hs]

theorem patternOf_utf8EncodeChar (c : Char) :
    Comparison.patternOf (String.utf8EncodeChar c) = utf8 (replaced c) := by
  rw [replaced]
  by_cases hmany : c = '%'
  · subst hmany
    rfl
  by_cases hone : c = '_'
  · subst hone
    rfl
  rw [if_neg hmany, if_neg hone, utf8, List.flatMap_singleton]
  apply patternOf_of_not_mem
  intro b hb
  rcases mem_utf8EncodeChar hb with hself | htrail
  · refine ⟨?_, ?_⟩
    · rintro rfl
      exact hmany (Char.toNat_inj.mp hself.symm)
    · rintro rfl
      exact hone (Char.toNat_inj.mp hself.symm)
  · refine ⟨?_, ?_⟩
    · rintro rfl
      exact absurd htrail (by decide)
    · rintro rfl
      exact absurd htrail (by decide)

/-- The replacements on bytes are those on characters. -/
theorem patternOf_utf8 (pattern : List Char) :
    Comparison.patternOf (utf8 pattern) = utf8 (pattern.flatMap replaced) := by
  induction pattern with
  | nil => rfl
  | cons c pattern ih =>
      rw [List.flatMap_cons, utf8, List.flatMap_cons, patternOf_append, patternOf_utf8EncodeChar,
        utf8, utf8, List.flatMap_append]
      exact congrArg _ ih

/-- The parts of the expression of a pattern. -/
def pieces (pattern : List Char) : List (Wildcard Nat) :=
  (pattern.map wildcard).flatMap (Wildcard.encode utf16)

theorem pieces_cons (c : Char) (pattern : List Char) :
    pieces (c :: pattern) = (wildcard c).encode utf16 ++ pieces pattern := by
  rw [pieces, List.map_cons, List.flatMap_cons]
  rfl

theorem flatMap_spell_lit (us : List Nat) : (us.map Wildcard.lit).flatMap spell = us := by
  induction us with
  | nil => rfl
  | cons u us ih => exact congrArg (List.cons u) ih

theorem replaced_eq_spell (c : Char) :
    (replaced c).flatMap utf16 = ((wildcard c).encode utf16).flatMap spell := by
  rw [replaced, wildcard]
  by_cases hmany : c = '%'
  · subst hmany
    rfl
  by_cases hone : c = '_'
  · subst hone
    rfl
  rw [if_neg hmany, if_neg hone, if_neg hmany, if_neg hone, List.flatMap_singleton,
    Wildcard.encode, flatMap_spell_lit]

theorem spell_pieces (pattern : List Char) :
    (pattern.flatMap replaced).flatMap utf16 = (pieces pattern).flatMap spell := by
  induction pattern with
  | nil => rfl
  | cons c pattern ih =>
      rw [List.flatMap_cons, List.flatMap_append, ih, replaced_eq_spell, pieces_cons,
        List.flatMap_append]

/-! ## Code units of a kind -/

theorem mem_utf16 {c : Char} {u : Nat} (h : u ∈ utf16 c) :
    u = c.toNat ∨ 0xD800 ≤ u ∧ u < 0xE000 := by
  have hc := toNat_lt_or c
  rw [utf16] at h
  split_ifs at h with hplane
  · exact .inl (List.mem_singleton.mp h)
  · right
    rcases List.mem_pair.mp h with h | h <;> omega

theorem literals_wildcard (pattern : List Char) :
    literals (pattern.map wildcard) = pattern.filter fun c => c ≠ '%' ∧ c ≠ '_' := by
  rw [literals, List.filterMap_map, ← List.filterMap_eq_filter]
  apply List.filterMap_congr
  intro c _
  rw [Function.comp_apply, wildcard, Option.guard]
  by_cases hmany : c = '%'
  · simp [hmany, Wildcard.literal?]
  · by_cases hone : c = '_'
    · simp [hone, Wildcard.literal?]
    · simp [hmany, hone, Wildcard.literal?]

theorem literals_pieces (pattern : List Char) :
    literals (pieces pattern) =
      (pattern.filter fun c => c ≠ '%' ∧ c ≠ '_').flatMap utf16 := by
  rw [pieces, literals_encode, literals_wildcard]

theorem isSyntaxCharacter_of_le {u : Nat} (h : 0xD800 ≤ u) : isSyntaxCharacter u = false := by
  have hlt : ∀ v ∈ ['^', '$', '\\', '.', '*', '+', '?', '(', ')', '[', ']', '{', '}', '|'].map
      Char.toNat, v < 0xD800 := by
    decide
  exact decide_eq_false fun hmem => absurd (hlt u hmem) (Nat.not_lt.mpr h)

theorem isLineTerminator_of_le {u : Nat} (h : 0xD800 ≤ u) : isLineTerminator u = false := by
  have hlt : ∀ v ∈ [0x0A, 0x0D, 0x2028, 0x2029], v < 0xD800 := by decide
  exact decide_eq_false fun hmem => absurd (hlt u hmem) (Nat.not_lt.mpr h)

/-- An expression has no syntax characters but those of its wildcards. -/
theorem isSyntaxCharacter_of_mem_pieces {pattern : List Char}
    (h : ∀ c ∈ pattern, isSyntaxCharacter c.toNat = false) :
    ∀ u ∈ literals (pieces pattern), isSyntaxCharacter u = false := by
  intro u hu
  rw [literals_pieces] at hu
  rcases List.mem_flatMap.mp hu with ⟨c, hc, hu⟩
  rcases mem_utf16 hu with rfl | ⟨hle, -⟩
  · exact h c (List.mem_of_mem_filter hc)
  · exact isSyntaxCharacter_of_le hle

/-- The line terminators of a string. -/
def lines (s : List Char) : Nat := s.countP fun c => isLineTerminator c.toNat

theorem countP_utf16 (s : List Char) : (s.flatMap utf16).countP isLineTerminator = lines s := by
  have hchar : ∀ c : Char, (utf16 c).countP isLineTerminator = lines [c] := by
    intro c
    by_cases hplane : c.toNat < 0x10000
    · rw [utf16, if_pos hplane, lines, List.countP_singleton, List.countP_singleton]
    · have hunits : ∀ u ∈ utf16 c, isLineTerminator u = false := by
        intro u hu
        rcases mem_utf16 hu with rfl | ⟨hle, -⟩
        · exact isLineTerminator_of_le (by omega)
        · exact isLineTerminator_of_le hle
      rw [lines, List.countP_singleton, isLineTerminator_of_le (by omega)]
      exact List.countP_eq_zero.mpr fun u hu => ne_true_of_eq_false (hunits u hu)
  induction s with
  | nil => rfl
  | cons c s ih =>
      rw [List.flatMap_cons, List.countP_append, hchar, ih, lines, lines, ← List.countP_append]
      rfl

theorem countP_literals_pieces (pattern : List Char) :
    (literals (pieces pattern)).countP isLineTerminator = lines pattern := by
  rw [literals_pieces, countP_utf16, lines, lines, List.countP_filter]
  apply List.countP_congr
  intro c _
  have hmany : isLineTerminator '%'.toNat = false := by decide
  have hone : isLineTerminator '_'.toNat = false := by decide
  rw [Bool.and_eq_true, decide_eq_true_iff]
  refine ⟨And.left, fun h => ⟨h, ?_, ?_⟩⟩
  · rintro rfl
    cases hmany.symm.trans h
  · rintro rfl
    cases hone.symm.trans h

/-! ## Evaluation -/

/-- LIKE and NOT LIKE tell whether something is the case. -/
def Tells (regexMatch : RegexMatch) (lhs rhs : Value) (P : Prop) : Prop :=
  ∃ b, Comparison.compute regexMatch .like lhs rhs = .ok (.bool b) ∧
    Comparison.compute regexMatch .notLike lhs rhs = .ok (.bool !b) ∧ (b = true ↔ P)

variable {regexMatch : RegexMatch} {lhs rhs : Value} {pattern subject : List Char}

/-- The expression of a pattern matches if the subject is of the pattern, and its wildcards pass
the line terminators by. -/
theorem matches_pieces_iff (hplane : '_' ∈ pattern → ∀ c ∈ subject, c.toNat < 0x10000) :
    Wildcards.Matches (fun u => isLineTerminator u = false) (pieces pattern)
        (subject.flatMap utf16) ↔
      Matches pattern subject ∧ lines subject ≤ lines pattern := by
  rw [matches_avoid_iff, countP_utf16, countP_literals_pieces]
  refine and_congr_left' (matches_encode_iff isCode_utf16 fun hone c hc => ?_)
  rcases List.mem_map.mp hone with ⟨w, hw, heq⟩
  have hmem : '_' ∈ pattern := by
    rw [wildcard] at heq
    split_ifs at heq with hmany hone
    exact hone ▸ hw
  exact ⟨c.toNat, if_pos (hplane hmem c hc)⟩

theorem compute_like {text pat : List UInt8} {b : Bool} (hlhs : lhs.getString = .ok text)
    (hrhs : rhs.getString = .ok pat)
    (hmatch : regexMatch text (Comparison.patternOf pat) = .ok b) :
    Comparison.compute regexMatch .like lhs rhs = .ok (.bool b) ∧
      Comparison.compute regexMatch .notLike lhs rhs = .ok (.bool !b) := by
  have hnull : ¬ (lhs.isNull = true ∨ rhs.isNull = true) := by
    rintro (h | h)
    · cases lhs <;> cases h
      cases hlhs
    · cases rhs <;> cases h
      cases hrhs
  have hlike : Comparison.isLike regexMatch lhs rhs = .ok b := by
    rw [Comparison.isLike, hlhs, hrhs]
    exact hmatch
  rw [Comparison.compute, if_neg hnull, Comparison.compute, if_neg hnull, hlike]
  exact ⟨rfl, rfl⟩

/-- Where the pattern has no syntax characters, and no `_` for a character of two code units,
LIKE is right if and only if a subject of the pattern has no more line terminators than it. -/
theorem tells_iff (hregex : IsECMAScript regexMatch) (hlhs : lhs.getString = .ok (utf8 subject))
    (hrhs : rhs.getString = .ok (utf8 pattern))
    (hplain : ∀ c ∈ pattern, isSyntaxCharacter c.toNat = false)
    (hplane : '_' ∈ pattern → ∀ c ∈ subject, c.toNat < 0x10000) :
    Tells regexMatch lhs rhs (Matches pattern subject) ↔
      (Matches pattern subject → lines subject ≤ lines pattern) := by
  rcases hregex subject (pattern.flatMap replaced) (pieces pattern) (spell_pieces pattern)
    (isSyntaxCharacter_of_mem_pieces hplain) with ⟨b, hmatch, hb⟩
  rw [← patternOf_utf8] at hmatch
  rw [matches_pieces_iff hplane] at hb
  rcases compute_like hlhs hrhs hmatch with ⟨hlike, hnotLike⟩
  have htells : Tells regexMatch lhs rhs (Matches pattern subject) ↔
      (b = true ↔ Matches pattern subject) := by
    constructor
    · rintro ⟨b', hlike', -, hb'⟩
      cases hlike.symm.trans hlike'
      exact hb'
    · exact fun h => ⟨b, hlike, hnotLike, h⟩
  rw [htells, hb, and_iff_left_iff_imp]

/-! ## Expressions without syntax characters -/

/-- The wildcards of an expression. -/
def parse : List Nat → List (Wildcard Nat)
  | [] => []
  | [u] => [if u = '.'.toNat then .one else .lit u]
  | u :: v :: us =>
      if u = '.'.toNat then
        if v = '*'.toNat then .many :: parse us else .one :: parse (v :: us)
      else
        .lit u :: parse (v :: us)

/-- `std::regex_match`, for expressions that have no syntax characters but `.` and `.*`. -/
def simpleRegexMatch : RegexMatch := fun text source =>
  match text.toByteArray.utf8Decode?, source.toByteArray.utf8Decode? with
  | some text, some source =>
      let ws := parse (source.toList.flatMap utf16)
      if ∀ u ∈ literals ws, isSyntaxCharacter u = false then
        .ok (matcher (fun u => !isLineTerminator u) ws (text.toList.flatMap utf16))
      else
        .error .undefined
  | _, _ => .error .undefined

theorem parse_lit {u : Nat} (h : u ≠ '.'.toNat) (us : List Nat) :
    parse (u :: us) = .lit u :: parse us := by
  cases us with
  | nil => exact congrArg (fun w => [w]) (if_neg h)
  | cons v us => rw [parse, if_neg h]

theorem parse_one {us : List Nat} (h : ∀ v vs, us = v :: vs → v ≠ '*'.toNat) :
    parse ('.'.toNat :: us) = .one :: parse us := by
  cases us with
  | nil => rfl
  | cons v us => rw [parse, if_pos rfl, if_neg (h v us rfl)]

/-- No wildcard but the one for sequences is written with a star. -/
theorem ne_star_of_spell {ws : List (Wildcard Nat)}
    (h : ∀ u ∈ literals ws, isSyntaxCharacter u = false) :
    ∀ v vs, ws.flatMap spell = v :: vs → v ≠ '*'.toNat := by
  rintro v vs hspell rfl
  cases ws with
  | nil => cases hspell
  | cons w ws =>
      cases w with
      | many => cases hspell
      | one => cases hspell
      | lit u =>
          cases hspell
          cases h '*'.toNat List.mem_cons_self

theorem parse_spell {ws : List (Wildcard Nat)}
    (h : ∀ u ∈ literals ws, isSyntaxCharacter u = false) : parse (ws.flatMap spell) = ws := by
  induction ws with
  | nil => rfl
  | cons w ws ih =>
      cases w with
      | many => exact congrArg (List.cons .many) (ih h)
      | one =>
          have hws : ∀ u ∈ literals ws, isSyntaxCharacter u = false := h
          exact (parse_one (ne_star_of_spell hws)).trans (congrArg (List.cons .one) (ih hws))
      | lit u =>
          rcases List.forall_mem_cons.mp h with ⟨hu, hws⟩
          have hdot : u ≠ '.'.toNat := by
            rintro rfl
            cases hu
          exact (parse_lit hdot _).trans (congrArg (List.cons (.lit u)) (ih hws))

theorem isECMAScript_simpleRegexMatch : IsECMAScript simpleRegexMatch := by
  intro text source ws hspell hplain
  have htext : (utf8 text).toByteArray.utf8Decode? = some text.toArray :=
    List.utf8Decode?_utf8Encode
  have hsource : (utf8 source).toByteArray.utf8Decode? = some source.toArray :=
    List.utf8Decode?_utf8Encode
  refine ⟨matcher (fun u => !isLineTerminator u) ws (text.flatMap utf16), ?_, ?_⟩
  · rw [simpleRegexMatch, htext, hsource]
    dsimp only
    rw [hspell, parse_spell hplain, if_pos hplain]
  · rw [matcher_iff]
    simp only [Bool.not_eq_true']

/-- `'abc' LIKE 'a%'`. -/
theorem tells_prefix :
    Tells simpleRegexMatch (.varchar (utf8 ['a', 'b', 'c'])) (.varchar (utf8 ['a', '%']))
      (Matches ['a', '%'] ['a', 'b', 'c']) := by
  refine (tells_iff isECMAScript_simpleRegexMatch rfl rfl ?_ ?_).mpr fun _ => Nat.le_refl 0
  · intro c hc
    rcases List.mem_pair.mp hc with rfl | rfl
    · rfl
    · rfl
  · intro hone
    rcases List.mem_pair.mp hone with h | h
    · cases h
    · cases h

/-- `'x' LIKE '.'` is TRUE. -/
theorem like_dot :
    (∀ regexMatch, IsECMAScript regexMatch →
      Comparison.compute regexMatch .like (.varchar (utf8 ['x'])) (.varchar (utf8 ['.'])) =
        .ok (.bool true)) ∧
      ¬ Matches ['.'] ['x'] := by
  constructor
  · intro regexMatch hregex
    have hspell : ['.'].flatMap utf16 = [Wildcard.one].flatMap spell := by rfl
    rcases hregex ['x'] ['.'] [.one] hspell (fun u hu => by cases hu) with ⟨b, hmatch, hb⟩
    have htrue : b = true := hb.mpr (.one (by decide) .nil)
    rw [← htrue]
    exact (compute_like rfl rfl hmatch).1
  · intro h
    cases h

end Like

end HuaDB
