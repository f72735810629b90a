import HuaDB.Executors
import Mathlib.Data.List.Lex

/-!
The values that `Less`, `Equal` and `Greater` put in a linear order: the INTs, and the
strings of one type.
-/

namespace HuaDB

namespace Value

/-- An INT or a string as a list of numbers, which is compared lexicographically. -/
def sortKey : Value → List Int
  | .int n => [n.toInt]
  | .char str | .varchar str => str.map fun b => (b.toNat : Int)
  | _ => []

/-- The types of INT and string keys. -/
def IsKeyType : ValueType → Prop
  | .int | .char | .varchar => True
  | _ => False

theorem map_toNat_lt_iff {s t : List UInt8} :
    s.map (fun b => (b.toNat : Int)) < t.map (fun b => (b.toNat : Int)) ↔ s < t := by
  induction s generalizing t with
  | nil => cases t <;> simp
  | cons b s ih =>
      cases t with
      | nil => simp
      | cons c t =>
          rw [List.map_cons, List.map_cons, List.cons_lt_cons_iff, List.cons_lt_cons_iff, ih,
            UInt8.lt_iff_toNat_lt, ← UInt8.toNat_inj, Int.ofNat_lt, Int.ofNat_inj]

theorem map_toNat_inj {s t : List UInt8} :
    s.map (fun b => (b.toNat : Int)) = t.map (fun b => (b.toNat : Int)) ↔ s = t := by
  have hinj : Function.Injective fun b : UInt8 => (b.toNat : Int) := by
    intro b c h
    exact UInt8.toNat_inj.mp (Int.ofNat_inj.mp h)
  exact hinj.list_map.eq_iff

variable {a b : Value} {T : ValueType}

/-- Two keys of one type are two INTs or two strings of that type. -/
theorem cases_of_isKeyType (hT : IsKeyType T) (ha : a.getType = T) (hb : b.getType = T) :
    (∃ n m, a = .int n ∧ b = .int m) ∨ (∃ s t, a = .char s ∧ b = .char t) ∨
      ∃ s t, a = .varchar s ∧ b = .varchar t := by
  cases a <;> subst ha <;> cases hT <;> cases b <;> cases hb
  · exact .inl ⟨_, _, rfl, rfl⟩
  · exact .inr (.inl ⟨_, _, rfl, rfl⟩)
  · exact .inr (.inr ⟨_, _, rfl, rfl⟩)

/-- A comparison that compares numbers and strings as their sort keys compares keys so. -/
theorem compareWith_eq {name : String} {bool : Option (Bool → Bool → Bool)}
    {int : Int32 → Int32 → Bool} {double : Float → Float → Bool}
    {str : List UInt8 → List UInt8 → Bool} {r : List Int → List Int → Bool}
    (hint : ∀ n m : Int32, int n m = r [n.toInt] [m.toInt])
    (hstr : ∀ s t : List UInt8, str s t =
      r (s.map fun b => (b.toNat : Int)) (t.map fun b => (b.toNat : Int)))
    (hT : IsKeyType T) (ha : a.getType = T) (hb : b.getType = T) :
    compareWith name bool int double str a b = .ok (r a.sortKey b.sortKey) := by
  rcases cases_of_isKeyType hT ha hb with ⟨n, m, rfl, rfl⟩ | ⟨s, t, rfl, rfl⟩ | ⟨s, t, rfl, rfl⟩
  · exact congrArg Except.ok (hint n m)
  · exact congrArg Except.ok (hstr s t)
  · exact congrArg Except.ok (hstr s t)

theorem singleton_lt_iff {i j : Int} : ([i] < [j]) ↔ i < j := by
  rw [List.cons_lt_cons_iff]
  simp

theorem less_eq (hT : IsKeyType T) (ha : a.getType = T) (hb : b.getType = T) :
    a.less b = .ok (decide (a.sortKey < b.sortKey)) := by
  refine compareWith_eq (r := fun i j => decide (i < j)) ?_ ?_ hT ha hb
  · exact fun n m => by simp only [singleton_lt_iff, Int32.lt_iff_toInt_lt]
  · exact fun s t => by simp only [map_toNat_lt_iff]

theorem greater_eq (hT : IsKeyType T) (ha : a.getType = T) (hb : b.getType = T) :
    a.greater b = .ok (decide (b.sortKey < a.sortKey)) := by
  refine compareWith_eq (r := fun i j => decide (j < i)) ?_ ?_ hT ha hb
  · exact fun n m => by simp only [singleton_lt_iff, gt_iff_lt, Int32.lt_iff_toInt_lt]
  · exact fun s t => by simp only [map_toNat_lt_iff, gt_iff_lt]

theorem equal_eq (hT : IsKeyType T) (ha : a.getType = T) (hb : b.getType = T) :
    a.equal b = .ok (decide (a.sortKey = b.sortKey)) := by
  refine compareWith_eq (r := fun i j => decide (i = j)) ?_ ?_ hT ha hb
  · exact fun n m => by simp [beq_eq_decide, Int32.toInt_inj]
  · exact fun s t => by simp only [map_toNat_inj, beq_eq_decide]

end Value

/-! ## The keys of records -/

section Keys

variable (regexMatch : RegexMatch) (key : OperatorExpression)

/-- All records have a key, of one type. -/
def HasKeys (T : ValueType) (rows : List ExecRecord) : Prop :=
  ∀ row ∈ rows, ∃ value, key.evaluate regexMatch row.values = .ok value ∧ value.getType = T

/-- The key of a record that has one. -/
def keyOf (row : ExecRecord) : Value :=
  match key.evaluate regexMatch row.values with
  | .ok value => value
  | .error _ => .null

variable {regexMatch key} {T : ValueType} {rows : List ExecRecord} {row : ExecRecord}

theorem HasKeys.evaluate_eq (h : HasKeys regexMatch key T rows) (hrow : row ∈ rows) :
    key.evaluate regexMatch row.values = .ok (keyOf regexMatch key row) := by
  rcases h row hrow with ⟨value, hvalue, -⟩
  rw [keyOf, hvalue]

theorem HasKeys.getType_eq (h : HasKeys regexMatch key T rows) (hrow : row ∈ rows) :
    (keyOf regexMatch key row).getType = T := by
  rcases h row hrow with ⟨value, hvalue, htype⟩
  rw [keyOf, hvalue]
  exact htype

end Keys

end HuaDB
