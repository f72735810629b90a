import HuaDB.Lib.Exec
import HuaDB.Expressions

/-!
BETWEEN and IN against the comparisons that they stand for.

`Comparison::Compute` reads bounds and list elements as values of the type of its left
operand, while the comparisons know numbers of two types and strings as well. The two
agree when the types of what is read do (`expansions_iff`).
-/

namespace HuaDB

namespace Comparison

variable (regexMatch : RegexMatch)

/-! ## Expansions -/

/-- `x >= a AND x <= b`. -/
def expandBetween (x a b : Value) : Except EvalError Value := do
  let lower ← compute regexMatch .greaterEqual x a
  let upper ← compute regexMatch .lessEqual x b
  Logic.compute .and lower upper

/-- `x = v1 OR ... OR x = vn`. -/
def expandIn (x : Value) : List Value → Except EvalError Value
  | [] => .ok (.bool false)
  | value :: values => do
      let found ← compute regexMatch .equal x value
      let rest ← expandIn x values
      Logic.compute .or found rest

/-- An INT, a DOUBLE or a string. -/
inductive IsScalar : Value → Prop
  | int (n : Int32) : IsScalar (.int n)
  | double (d : Double) : IsScalar (.double d)
  | char (str : List UInt8) : IsScalar (.char str)
  | varchar (str : List UInt8) : IsScalar (.varchar str)

/-- Two values that `GetValue` reads as one type. -/
def SameKind (x v : Value) : Prop :=
  x.getType = v.getType ∨
    TypeUtil.isString x.getType = true ∧ TypeUtil.isString v.getType = true

/-- The operand and the lower bound are two INTs or two DOUBLEs, and the upper bound is of
their type as well, unless the operand is below the lower bound. -/
def BoundsMatch (x a b : Value) : Prop :=
  (x.getType = .int ∨ x.getType = .double) ∧ a.getType = x.getType ∧
    (b.getType = x.getType ∨ compute regexMatch .greaterEqual x a = .ok (.bool false))

/-- All elements up to the first one that is equal to the operand are of its kind. -/
def KindsMatch (x : Value) : List Value → Prop
  | [] => True
  | value :: values =>
      SameKind x value ∧ (compute regexMatch .equal x value = .ok (.bool true) ∨ KindsMatch x values)

variable {regexMatch} {x a b value : Value} {values : List Value}

/-! ## Comparisons of scalars -/

/-- The types of the comparisons that an expansion is made of. -/
def IsBinary (type : ComparisonType) : Prop :=
  type = .equal ∨ type = .greaterEqual ∨ type = .lessEqual

theorem exists_bool_of_compute {type : ComparisonType} (htype : IsBinary type) (hx : IsScalar x)
    (hv : IsScalar value) {w : Value} (h : compute regexMatch type x value = .ok w) :
    ∃ b, w = .bool b := by
  rcases htype with rfl | rfl | rfl <;> cases hx <;> cases hv <;> cases h <;> exact ⟨_, rfl⟩

/-! ## BETWEEN -/

theorem compute_between (hx : IsScalar x) (values : List Value) :
    compute regexMatch .between x (.list values) =
        (isBetween x (.list values) >>= fun between => .ok (.bool between)) ∧
      compute regexMatch .notBetween x (.list values) =
        (isBetween x (.list values) >>= fun between => .ok (.bool !between)) := by
  cases hx <;> exact ⟨rfl, rfl⟩

theorem expandBetween_eq (hx : IsScalar x) (ha : IsScalar a) (hb : IsScalar b) {e : Value}
    (h : expandBetween regexMatch x a b = .ok e) :
    ∃ l u, compute regexMatch .greaterEqual x a = .ok (.bool l) ∧
      compute regexMatch .lessEqual x b = .ok (.bool u) ∧ e = .bool (l && u) := by
  rcases Except.bind_eq_ok_iff.mp h with ⟨lower, hlower, h⟩
  rcases Except.bind_eq_ok_iff.mp h with ⟨upper, hupper, h⟩
  rcases exists_bool_of_compute (.inr (.inl rfl)) hx ha hlower with ⟨l, rfl⟩
  rcases exists_bool_of_compute (.inr (.inr rfl)) hx hb hupper with ⟨u, rfl⟩
  cases h
  exact ⟨l, u, hlower, hupper, rfl⟩

theorem boundsMatch_iff {l : Bool} (hx : x.getType = .int ∨ x.getType = .double)
    (ha : a.getType = x.getType) (hlower : compute regexMatch .greaterEqual x a = .ok (.bool l)) :
    BoundsMatch regexMatch x a b ↔ b.getType = x.getType ∨ l = false := by
  simp [BoundsMatch, hx, ha, hlower]

theorem not_boundsMatch (h : a.getType ≠ x.getType) : ¬ BoundsMatch regexMatch x a b :=
  fun hmatch => h hmatch.2.1

/-- The bounds are read as far as their types are looked at in `BoundsMatch`. -/
theorem isBetween_iff {l u : Bool} (hx : IsScalar x) (ha : IsScalar a) (hb : IsScalar b)
    (hlower : compute regexMatch .greaterEqual x a = .ok (.bool l))
    (hupper : compute regexMatch .lessEqual x b = .ok (.bool u)) :
    isBetween x (.list [a, b]) = .ok (l && u) ↔ BoundsMatch regexMatch x a b := by
  cases hx with
  | int n =>
      cases ha with
      | int m =>
          rw [boundsMatch_iff (x := .int n) (a := .int m) (.inl rfl) rfl hlower]
          have hbetween : isBetween (.int n) (.list [.int m, b]) =
              if m ≤ n then b.getInt >>= fun k => .ok (decide (n ≤ k)) else .ok false := rfl
          rw [hbetween]
          cases hlower
          by_cases hle : m ≤ n
          · rw [if_pos hle, decide_eq_true hle]
            cases hb <;> cases hupper
            · exact iff_of_true rfl (.inl rfl)
            · exact iff_of_false (fun h => by cases h) (fun h => by rcases h with h | h <;> cases h)
          · rw [if_neg hle, decide_eq_false hle]
            exact iff_of_true rfl (.inr rfl)
      | double d => exact iff_of_false (fun h => by cases h) (not_boundsMatch fun h => by cases h)
      | char str => cases hlower
      | varchar str => cases hlower
  | double c =>
      cases ha with
      | double d =>
          rw [boundsMatch_iff (x := .double c) (a := .double d) (.inr rfl) rfl hlower]
          have hbetween : isBetween (.double c) (.list [.double d, b]) =
              if d.toFloat ≤ c.toFloat then
                b.getDouble >>= fun k => .ok (decide (c.toFloat ≤ k.toFloat))
              else .ok false := rfl
          rw [hbetween]
          cases hlower
          by_cases hle : d.toFloat ≤ c.toFloat
          · rw [if_pos hle, decide_eq_true hle]
            cases hb <;> cases hupper
            · exact iff_of_false (fun h => by cases h) (fun h => by rcases h with h | h <;> cases h)
            · exact iff_of_true rfl (.inl rfl)
          · rw [if_neg hle, decide_eq_false hle]
            exact iff_of_true rfl (.inr rfl)
      | int m => exact iff_of_false (fun h => by cases h) (not_boundsMatch fun h => by cases h)
      | char str => cases hlower
      | varchar str => cases hlower
  | char str | varchar str =>
      exact iff_of_false (fun h => by cases h) (fun h => by rcases h.1 with h | h <;> cases h)

/-- An upper bound that is NULL is not to be read. -/
theorem isBetween_null_iff {l : Bool} (hx : IsScalar x) (ha : IsScalar a)
    (hlower : compute regexMatch .greaterEqual x a = .ok (.bool l)) :
    isBetween x (.list [a, .null]) = .ok false ∧ l = false ↔ BoundsMatch regexMatch x a .null := by
  cases hx with
  | int n =>
      cases ha with
      | int m =>
          rw [boundsMatch_iff (x := .int n) (a := .int m) (.inl rfl) rfl hlower]
          have hbetween : isBetween (.int n) (.list [.int m, .null]) =
              if m ≤ n then .error (.db "Type mismatch (expected int)") else .ok false := rfl
          cases hlower
          rw [hbetween, decide_eq_false_iff_not]
          exact ⟨fun h => .inr h.2, fun h => h.elim (fun h => by cases h) fun h => ⟨if_neg h, h⟩⟩
      | double d => exact iff_of_false (fun h => by cases h.1) (not_boundsMatch fun h => by cases h)
      | char str | varchar str => cases hlower
  | double c =>
      cases ha with
      | double d =>
          rw [boundsMatch_iff (x := .double c) (a := .double d) (.inr rfl) rfl hlower]
          have hbetween : isBetween (.double c) (.list [.double d, .null]) =
              if d.toFloat ≤ c.toFloat then .error (.db "Type mismatch (expected double)")
              else .ok false := rfl
          cases hlower
          rw [hbetween, decide_eq_false_iff_not]
          exact ⟨fun h => .inr h.2, fun h => h.elim (fun h => by cases h) fun h => ⟨if_neg h, h⟩⟩
      | int m => exact iff_of_false (fun h => by cases h.1) (not_boundsMatch fun h => by cases h)
      | char str | varchar str => cases hlower
  | char str | varchar str =>
      exact iff_of_false (fun h => by cases h.1) (fun h => by rcases h.1 with h | h <;> cases h)

/-! ## IN -/

theorem compute_in (hx : IsScalar x) (values : List Value) :
    compute regexMatch .in x (.list values) =
        (isIn x values >>= fun found => .ok (.bool found)) ∧
      compute regexMatch .notIn x (.list values) =
        (isIn x values >>= fun found => .ok (.bool !found)) := by
  cases hx <;> exact ⟨rfl, rfl⟩

theorem expandIn_cons_eq (hx : IsScalar x) (hv : IsScalar value)
    (hvalues : ∀ {e}, expandIn regexMatch x values = .ok e → ∃ r, e = .bool r) {e : Value}
    (h : expandIn regexMatch x (value :: values) = .ok e) :
    ∃ f r, compute regexMatch .equal x value = .ok (.bool f) ∧
      expandIn regexMatch x values = .ok (.bool r) ∧ e = .bool (f || r) := by
  rcases Except.bind_eq_ok_iff.mp h with ⟨found, hfound, h⟩
  rcases Except.bind_eq_ok_iff.mp h with ⟨rest, hrest, h⟩
  rcases exists_bool_of_compute (.inl rfl) hx hv hfound with ⟨f, rfl⟩
  rcases hvalues hrest with ⟨r, rfl⟩
  cases h
  exact ⟨f, r, hfound, hrest, rfl⟩

theorem exists_expandIn (hx : IsScalar x) (hvalues : ∀ v ∈ values, IsScalar v) {e : Value}
    (h : expandIn regexMatch x values = .ok e) : ∃ r, e = .bool r := by
  induction values generalizing e with
  | nil =>
      cases h
      exact ⟨false, rfl⟩
  | cons value values ih =>
      have ih := @ih fun v hv => hvalues v (List.mem_cons_of_mem _ hv)
      rcases expandIn_cons_eq hx (hvalues value List.mem_cons_self) ih h with ⟨f, r, -, -, heq⟩
      exact ⟨f || r, heq⟩

/-- An element of the kind of the operand is compared as in an expansion. -/
theorem isIn_cons_of_sameKind {f : Bool} (hx : IsScalar x) (hv : IsScalar value)
    (hkind : SameKind x value) (h : compute regexMatch .equal x value = .ok (.bool f)) :
    isIn x (value :: values) = if f then .ok true else isIn x values := by
  cases hx <;> cases hv <;> cases h <;> first
    | rfl
    | (rcases hkind with h | h <;> simp [Value.getType, TypeUtil.isString] at h)

variable (values) in
theorem isIn_cons_of_not_sameKind {f : Bool} (hx : IsScalar x) (hv : IsScalar value)
    (hkind : ¬ SameKind x value) (h : compute regexMatch .equal x value = .ok (.bool f)) :
    ∃ e, isIn x (value :: values) = .error e := by
  cases hx <;> cases hv <;> cases h <;> first
    | exact ⟨_, rfl⟩
    | exact absurd (.inl rfl) hkind
    | exact absurd (.inr ⟨rfl, rfl⟩) hkind

/-- The elements are read as far as their types are looked at in `KindsMatch`. -/
theorem isIn_iff (hx : IsScalar x) (hvalues : ∀ v ∈ values, IsScalar v) {r : Bool}
    (h : expandIn regexMatch x values = .ok (.bool r)) :
    isIn x values = .ok r ↔ KindsMatch regexMatch x values := by
  induction values generalizing r with
  | nil =>
      cases h
      exact iff_of_true rfl trivial
  | cons value values ih =>
      have hv := hvalues value List.mem_cons_self
      have hvs : ∀ v ∈ values, IsScalar v := fun v hv => hvalues v (List.mem_cons_of_mem _ hv)
      rcases expandIn_cons_eq hx hv (exists_expandIn hx hvs) h with ⟨f, r, hfound, hrest, heq⟩
      cases heq
      rw [KindsMatch, hfound]
      by_cases hkind : SameKind x value
      · rw [isIn_cons_of_sameKind hx hv hkind hfound]
        cases f with
        | true => exact iff_of_true rfl ⟨hkind, .inl rfl⟩
        | false =>
            rw [Bool.false_or, if_neg Bool.false_ne_true,
              ih hvs hrest]
            exact ⟨fun h => ⟨hkind, .inr h⟩, fun h => h.2.resolve_left fun h => by cases h⟩
      · rcases isIn_cons_of_not_sameKind values hx hv hkind hfound with ⟨e, he⟩
        rw [he]
        exact iff_of_false (fun h => by cases h) fun h => hkind h.1

/-! ## Agreement -/

/-- A comparison gives the value of its expansion, and its negated form the negation. -/
def Agrees (regexMatch : RegexMatch) (type notType : ComparisonType) (x : Value)
    (values : List Value) (e : Value) : Prop :=
  compute regexMatch type x (.list values) = .ok e ∧
    compute regexMatch notType x (.list values) = e.not

theorem agrees_bool_iff {result : Except EvalError Bool} {e : Bool} :
    (result >>= fun b => Except.ok (Value.bool b)) = .ok (.bool e) ∧
        (result >>= fun b => Except.ok (Value.bool !b)) = (Value.bool e).not ↔
      result = .ok e := by
  constructor
  · rintro ⟨h, -⟩
    rcases Except.bind_eq_ok_iff.mp h with ⟨b, hb, h⟩
    cases h
    exact hb
  · rintro rfl
    exact ⟨rfl, rfl⟩

/-- Where its expansion does not throw, BETWEEN agrees with it if and only if the bounds
match, and IN does if and only if the elements do. -/
theorem expansions_iff (hx : IsScalar x) :
    (∀ a b e, IsScalar a → IsScalar b → expandBetween regexMatch x a b = .ok e →
        (Agrees regexMatch .between .notBetween x [a, b] e ↔ BoundsMatch regexMatch x a b)) ∧
      ∀ values e, (∀ v ∈ values, IsScalar v) → expandIn regexMatch x values = .ok e →
        (Agrees regexMatch .in .notIn x values e ↔ KindsMatch regexMatch x values) := by
  constructor
  · intro a b e ha hb h
    rcases expandBetween_eq hx ha hb h with ⟨l, u, hlower, hupper, rfl⟩
    rw [Agrees, (compute_between hx _).1, (compute_between hx _).2, agrees_bool_iff]
    exact isBetween_iff hx ha hb hlower hupper
  · intro values e hvalues h
    rcases exists_expandIn hx hvalues h with ⟨r, rfl⟩
    rw [Agrees, (compute_in hx _).1, (compute_in hx _).2, agrees_bool_iff]
    exact isIn_iff hx hvalues h

/-- Bounds of the type of the operand, and a DOUBLE behind the element that is found. -/
theorem agrees_int :
    Agrees (fun _ _ => .ok false) .between .notBetween (.int 3) [.int 1, .int 5] (.bool true) ∧
      Agrees (fun _ _ => .ok false) .in .notIn (.int 3) [.int 2, .int 3, .double ⟨0⟩]
        (.bool true) := by
  have h := @expansions_iff (fun _ _ => .ok false) _ (.int 3)
  constructor
  · exact (h.1 _ _ _ (.int 1) (.int 5) rfl).mpr ⟨.inl rfl, rfl, .inl rfl⟩
  · refine (h.2 _ _ ?_ rfl).mpr ⟨.inl rfl, .inr ⟨.inl rfl, .inl rfl⟩⟩
    intro v hv
    simp only [List.mem_cons, List.not_mem_nil, or_false] at hv
    rcases hv with rfl | rfl | rfl <;> constructor

/-- `'b' BETWEEN 'a' AND 'c'` throws. -/
theorem not_agrees_string :
    expandBetween (fun _ _ => .ok false) (.varchar [98]) (.varchar [97]) (.varchar [99]) =
        .ok (.bool true) ∧
      ¬ Agrees (fun _ _ => .ok false) .between .notBetween (.varchar [98])
        [.varchar [97], .varchar [99]] (.bool true) :=
  ⟨rfl, fun h => by cases h.1⟩

end Comparison

end HuaDB
