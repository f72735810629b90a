import Mathlib.Data.List.Basic
import Mathlib.Data.Nat.Bitwise
import Mathlib.Data.UInt

/-!
Bits packed into bytes: bit `i` is bit `i % 8` of byte `i / 8`, counted from the least
significant.

`bitAt_setBit?` and `bitAt_clearBit?` are the read-after-write rules.  `setBits_eq_some_iff` and `bitAt_setBits` say
what setting several bits one after the other comes to.
-/

/-- The bit at a position; positions past the end read as false. -/
def bitAt (bytes : List UInt8) (i : Nat) : Bool := (bytes.getD (i / 8) 0).toNat.testBit (i % 8)

/-- Set the bit at a position, if there is one. -/
def setBit? (bytes : List UInt8) (i : Nat) : Option (List UInt8) :=
  if i < 8 * bytes.length then
    some (bytes.modify (i / 8) fun b => b ||| UInt8.ofNat (2 ^ (i % 8)))
  else
    none

/-- Clear the bit at a position, if there is one. -/
def clearBit? (bytes : List UInt8) (i : Nat) : Option (List UInt8) :=
  if i < 8 * bytes.length then
    some (bytes.modify (i / 8) fun b => b &&& ~~~ UInt8.ofNat (2 ^ (i % 8)))
  else
    none

/-- Set the bits at some positions. -/
def setBits? (bytes : List UInt8) (is : List Nat) : Option (List UInt8) :=
  is.foldlM setBit? bytes

section

variable {bytes bytes' : List UInt8} {i j : Nat} {is : List Nat}

theorem testBit_or_mask (b : UInt8) {k m : Nat} (hk : k < 8) :
    (b ||| UInt8.ofNat (2 ^ k)).toNat.testBit m = (b.toNat.testBit m || decide (k = m)) := by
  have hlt : 2 ^ k < 2 ^ 8 := Nat.pow_lt_pow_right (by omega) hk
  rw [UInt8.toNat_or, UInt8.toNat_ofNat', Nat.mod_eq_of_lt hlt, Nat.testBit_or,
    Nat.testBit_two_pow]

theorem testBit_and_not_mask (b : UInt8) {k m : Nat} (hk : k < 8) (hm : m < 8) :
    (b &&& ~~~ UInt8.ofNat (2 ^ k)).toNat.testBit m = (b.toNat.testBit m && decide (k ≠ m)) := by
  have hlt : 2 ^ k < 2 ^ 8 := Nat.pow_lt_pow_right (by omega) hk
  have hnot : (~~~ UInt8.ofNat (2 ^ k)).toNat.testBit m = !decide (k = m) := by
    have hbits := Nat.testBit_two_pow_sub_succ hlt m
    rw [Nat.testBit_two_pow, decide_eq_true hm, Bool.true_and] at hbits
    rw [UInt8.toNat_not, UInt8.toNat_ofNat', Nat.mod_eq_of_lt hlt, Nat.sub_sub, Nat.add_comm 1]
    exact hbits
  rw [UInt8.toNat_and, Nat.testBit_and, hnot, decide_not]

theorem length_of_setBit? (h : setBit? bytes i = some bytes') : bytes'.length = bytes.length := by
  rw [setBit?] at h
  split at h
  · cases h
    exact List.length_modify _ _ _
  · cases h

/-- Changing the byte of a position changes the bits that the change of the byte changes. -/
theorem bitAt_modify (f : UInt8 → UInt8) (hi : i < 8 * bytes.length) :
    bitAt (bytes.modify (i / 8) f) j =
      if i / 8 = j / 8 then (f (bytes.getD (j / 8) 0)).toNat.testBit (j % 8) else bitAt bytes j := by
  unfold bitAt
  rw [List.getD_eq_getElem?_getD, List.getD_eq_getElem?_getD, List.getElem?_modify]
  split
  · rename_i hbyte
    have hj : j / 8 < bytes.length := by omega
    rw [List.getElem?_eq_getElem hj]
    rfl
  · cases bytes[j / 8]? <;> rfl

theorem bitAt_setBit? (h : setBit? bytes i = some bytes') :
    bitAt bytes' j = (bitAt bytes j || decide (i = j)) := by
  rw [setBit?] at h
  split at h
  · rename_i hi
    cases h
    rw [bitAt_modify _ hi]
    split
    · rw [testBit_or_mask _ (Nat.mod_lt i (by omega)), bitAt]
      congr 1
      rw [decide_eq_decide]
      omega
    · rename_i hbyte
      have hne : i ≠ j := fun heq => hbyte (heq ▸ rfl)
      rw [decide_eq_false hne, Bool.or_false]
  · cases h

theorem length_of_clearBit? (h : clearBit? bytes i = some bytes') :
    bytes'.length = bytes.length := by
  rw [clearBit?] at h
  split at h
  · cases h
    exact List.length_modify _ _ _
  · cases h

theorem bitAt_clearBit? (h : clearBit? bytes i = some bytes') :
    bitAt bytes' j = (bitAt bytes j && decide (i ≠ j)) := by
  rw [clearBit?] at h
  split at h
  · rename_i hi
    cases h
    rw [bitAt_modify _ hi]
    split
    · rw [testBit_and_not_mask _ (Nat.mod_lt i (by omega)) (Nat.mod_lt j (by omega)), bitAt]
      congr 1
      rw [decide_eq_decide]
      omega
    · rename_i hbyte
      have hne : i ≠ j := fun heq => hbyte (heq ▸ rfl)
      rw [decide_eq_true hne, Bool.and_true]
  · cases h

theorem setBits?_cons_eq_some :
    setBits? bytes (i :: is) = some bytes' ↔
      ∃ mid, setBit? bytes i = some mid ∧ setBits? mid is = some bytes' := by
  rw [setBits?, List.foldlM_cons]
  exact Option.bind_eq_some_iff

theorem length_of_setBits? (h : setBits? bytes is = some bytes') :
    bytes'.length = bytes.length := by
  induction is generalizing bytes with
  | nil =>
      cases h
      rfl
  | cons i is ih =>
      obtain ⟨mid, hmid, h⟩ := setBits?_cons_eq_some.mp h
      rw [ih h, length_of_setBit? hmid]

/-- Setting bits succeeds when all positions are inside. -/
theorem exists_setBits?_eq_some_iff :
    (∃ bytes', setBits? bytes is = some bytes') ↔ ∀ i ∈ is, i < 8 * bytes.length := by
  induction is generalizing bytes with
  | nil => exact ⟨fun _ i hi => (by cases hi), fun _ => ⟨bytes, rfl⟩⟩
  | cons i is ih =>
      rw [List.forall_mem_cons]
      constructor
      · rintro ⟨bytes', h⟩
        obtain ⟨mid, hmid, h⟩ := setBits?_cons_eq_some.mp h
        have hrest := ih.mp ⟨bytes', h⟩
        rw [length_of_setBit? hmid] at hrest
        refine ⟨?_, hrest⟩
        rw [setBit?] at hmid
        split at hmid
        · assumption
        · cases hmid
      · rintro ⟨hi, hrest⟩
        have hmid : setBit? bytes i = some (bytes.modify (i / 8) fun b =>
            b ||| UInt8.ofNat (2 ^ (i % 8))) := if_pos hi
        rw [← length_of_setBit? hmid] at hrest
        obtain ⟨bytes', h⟩ := ih.mpr hrest
        exact ⟨bytes', setBits?_cons_eq_some.mpr ⟨_, hmid, h⟩⟩

/-- The bits set are those that were set and the positions given. -/
theorem bitAt_setBits? (h : setBits? bytes is = some bytes') :
    bitAt bytes' j = (bitAt bytes j || decide (j ∈ is)) := by
  induction is generalizing bytes with
  | nil =>
      cases h
      rw [decide_eq_false List.not_mem_nil, Bool.or_false]
  | cons i is ih =>
      obtain ⟨mid, hmid, h⟩ := setBits?_cons_eq_some.mp h
      rw [ih h, bitAt_setBit? hmid, Bool.or_assoc]
      congr 1
      rw [Bool.eq_iff_iff]
      simp only [Bool.or_eq_true, decide_eq_true_eq, List.mem_cons]
      exact or_congr_left ⟨Eq.symm, Eq.symm⟩

/-- Bytes put after the others leave their bits. -/
theorem bitAt_append_left (h : i < 8 * bytes.length) : bitAt (bytes ++ bytes') i = bitAt bytes i := by
  have hbyte : i / 8 < bytes.length := by omega
  rw [bitAt, bitAt, List.getD_append _ _ _ _ hbyte]

theorem bitAt_replicate (n j : Nat) : bitAt (List.replicate n 0) j = false := by
  unfold bitAt
  rw [List.getD_eq_getElem?_getD, List.getElem?_replicate]
  split <;> exact Nat.zero_testBit _

end
