import Mathlib.Data.List.Basic
import Mathlib.Data.UInt

/-!
Decoding byte strings that hold fixed-width little-endian numbers.

A decoder consumes a prefix of its input. `Decodes p bytes a` says that `p` reads
exactly `bytes`, whatever follows, and gives `a`; `Extends p` says that what `p`
makes of an input does not depend on what follows the bytes it reads. Both are
closed under sequencing, and together they say that `p` fails on every proper
prefix of `bytes` (`Decodes.take_eq_none`).
-/

/-- A decoder: from the remaining input to a value and the rest, or a failure. -/
abbrev Decoder (α : Type) := StateT (List UInt8) Option α

/-! ## Numbers -/

/-- The `w` bytes of a number, least significant first. -/
def encodeNat : Nat → Nat → List UInt8
  | 0, _ => []
  | w + 1, n => UInt8.ofNat (n % 256) :: encodeNat w (n / 256)

/-- The number of a byte string. -/
def decodeNat : List UInt8 → Nat
  | [] => 0
  | b :: bytes => b.toNat + 256 * decodeNat bytes

@[simp] theorem length_encodeNat (w n : Nat) : (encodeNat w n).length = w := by
  induction w generalizing n with
  | zero => rfl
  | succ w ih => exact congrArg (· + 1) (ih (n / 256))

theorem decodeNat_encodeNat {w n : Nat} (h : n < 256 ^ w) : decodeNat (encodeNat w n) = n := by
  induction w generalizing n with
  | zero =>
      have hn : n = 0 := by simpa using h
      rw [hn]
      rfl
  | succ w ih =>
      have hdiv : n / 256 < 256 ^ w := by
        rw [Nat.pow_succ] at h
        exact Nat.div_lt_of_lt_mul (by omega)
      have hbyte : (UInt8.ofNat (n % 256)).toNat = n % 256 := by
        rw [UInt8.toNat_ofNat']
        omega
      rw [encodeNat, decodeNat, ih hdiv, hbyte]
      omega

/-- A number that is too large loses its upper bytes. -/
theorem decodeNat_encodeNat_mod (w n : Nat) : decodeNat (encodeNat w n) = n % 256 ^ w := by
  induction w generalizing n with
  | zero => rw [Nat.pow_zero, Nat.mod_one, encodeNat, decodeNat]
  | succ w ih =>
      have hbyte : (UInt8.ofNat (n % 256)).toNat = n % 256 := by
        rw [UInt8.toNat_ofNat']
        omega
      rw [encodeNat, decodeNat, ih, hbyte, Nat.pow_succ, Nat.mul_comm, Nat.mul_comm (256 ^ w),
        Nat.mod_mul, Nat.mul_comm 256]

theorem encodeNat_decodeNat (bytes : List UInt8) :
    encodeNat bytes.length (decodeNat bytes) = bytes := by
  induction bytes with
  | nil => rfl
  | cons b bytes ih =>
      have hlt : b.toNat < 256 := b.toNat_lt
      have hmod : (b.toNat + 256 * decodeNat bytes) % 256 = b.toNat := by omega
      have hdiv : (b.toNat + 256 * decodeNat bytes) / 256 = decodeNat bytes := by omega
      rw [decodeNat, List.length_cons, encodeNat, hmod, hdiv, ih, UInt8.ofNat_toNat]

theorem decodeNat_lt (bytes : List UInt8) : decodeNat bytes < 256 ^ bytes.length := by
  have h := decodeNat_encodeNat_mod bytes.length (decodeNat bytes)
  rw [encodeNat_decodeNat] at h
  rw [h]
  exact Nat.mod_lt _ (Nat.pow_pos (by decide))

/-! ## Decoders -/

/-- The next `n` bytes. -/
def takeBytes (n : Nat) : Decoder (List UInt8) := fun s =>
  if n ≤ s.length then some (s.take n, s.drop n) else none

/-- A number of `w` bytes. -/
def readNat (w : Nat) : Decoder Nat := do return decodeNat (← takeBytes w)

/-- `n` values, one after the other. -/
def readMany {α : Type} (p : Decoder α) : Nat → Decoder (List α)
  | 0 => pure []
  | n + 1 => do
      let a ← p
      let l ← readMany p n
      return a :: l

/-- `p` reads exactly `bytes`, whatever follows, and gives `a`. -/
def Decodes {α : Type} (p : Decoder α) (bytes : List UInt8) (a : α) : Prop :=
  ∀ rest, p (bytes ++ rest) = some (a, rest)

/-- What `p` makes of an input does not depend on what follows. -/
def Extends {α : Type} (p : Decoder α) : Prop :=
  ∀ s a s' rest, p s = some (a, s') → p (s ++ rest) = some (a, s' ++ rest)

section Rules

variable {α β : Type} {p : Decoder α} {f : α → Decoder β} {bytes bytes' : List UInt8}

theorem Decoder.bind_eq_some_iff {s s'' : List UInt8} {b : β} :
    (p >>= f) s = some (b, s'') ↔ ∃ a s', p s = some (a, s') ∧ f a s' = some (b, s'') := by
  change (p s).bind (fun r => f r.1 r.2) = _ ↔ _
  rw [Option.bind_eq_some_iff, Prod.exists]

theorem Decodes.pure (a : α) : Decodes (Pure.pure a) [] a := fun _ => rfl

theorem Decodes.bind {a : α} {b : β} (hp : Decodes p bytes a) (hf : Decodes (f a) bytes' b) :
    Decodes (p >>= f) (bytes ++ bytes') b := by
  intro rest
  rw [Decoder.bind_eq_some_iff]
  refine ⟨a, bytes' ++ rest, ?_, hf rest⟩
  rw [List.append_assoc]
  exact hp (bytes' ++ rest)

theorem Decodes.map {a : α} (hp : Decodes p bytes a) (g : α → β) :
    Decodes (do return g (← p)) bytes (g a) := by
  have h := hp.bind (f := fun a => Pure.pure (g a)) (Decodes.pure (g a))
  rwa [List.append_nil] at h

theorem Extends.pure (a : α) : Extends (Pure.pure a : Decoder α) := by
  intro s b s' rest h
  cases h
  rfl

theorem Extends.bind (hp : Extends p) (hf : ∀ a, Extends (f a)) : Extends (p >>= f) := by
  intro s b s'' rest h
  obtain ⟨a, s', hps, hfs⟩ := Decoder.bind_eq_some_iff.mp h
  exact Decoder.bind_eq_some_iff.mpr ⟨a, s' ++ rest, hp s a s' rest hps, hf a s' b s'' rest hfs⟩

theorem Extends.failure : Extends (failure : Decoder α) := by
  intro s a s' rest h
  cases h

theorem decodes_takeBytes (bytes : List UInt8) : Decodes (takeBytes bytes.length) bytes bytes := by
  intro rest
  unfold takeBytes
  rw [if_pos (by simp)]
  simp

theorem takeBytes_eq_some {n : Nat} {s rest : List UInt8} (h : takeBytes n s = some (bytes, rest)) :
    n ≤ s.length ∧ bytes = s.take n ∧ rest = s.drop n := by
  unfold takeBytes at h
  split at h
  · rename_i hle
    cases h
    exact ⟨hle, rfl, rfl⟩
  · cases h

theorem readNat_eq_some {w n : Nat} {s rest : List UInt8} (h : readNat w s = some (n, rest)) :
    w ≤ s.length ∧ rest = s.drop w := by
  obtain ⟨bytes, s', htake, hpure⟩ := Decoder.bind_eq_some_iff.mp h
  cases hpure
  obtain ⟨hle, -, hrest⟩ := takeBytes_eq_some htake
  exact ⟨hle, hrest⟩

theorem extends_takeBytes (n : Nat) : Extends (takeBytes n) := by
  intro s a s' rest h
  unfold takeBytes at h ⊢
  split at h
  · rename_i hle
    cases h
    rw [if_pos (by rw [List.length_append]; omega), List.take_append_of_le_length hle,
      List.drop_append_of_le_length hle]
  · cases h

theorem decodes_readNat {w n : Nat} (h : n < 256 ^ w) :
    Decodes (readNat w) (encodeNat w n) n := by
  have hbytes := decodes_takeBytes (encodeNat w n)
  rw [length_encodeNat] at hbytes
  have hmap := hbytes.map decodeNat
  rwa [decodeNat_encodeNat h] at hmap

/-- Any bytes are a number. -/
theorem decodes_readNat_bytes (bytes : List UInt8) :
    Decodes (readNat bytes.length) bytes (decodeNat bytes) := by
  have h := decodes_readNat (decodeNat_lt bytes)
  rwa [encodeNat_decodeNat] at h

theorem extends_readNat (w : Nat) : Extends (readNat w) :=
  (extends_takeBytes w).bind fun _ => .pure _

theorem decodes_readMany {encode : α → List UInt8} {l : List α}
    (hp : ∀ a ∈ l, Decodes p (encode a) a) :
    Decodes (readMany p l.length) (l.flatMap encode) l := by
  induction l with
  | nil => exact .pure []
  | cons a l ih =>
      have hrest := ih fun b hb => hp b (List.mem_cons_of_mem _ hb)
      exact (hp a List.mem_cons_self).bind (hrest.map (a :: ·))

theorem extends_readMany (hp : Extends p) (n : Nat) : Extends (readMany p n) := by
  induction n with
  | zero => exact .pure []
  | succ n ih => exact hp.bind fun _ => ih.bind fun _ => .pure _

/-- A decoder cannot do with less than what it reads. -/
theorem Decodes.take_eq_none {a : α} (hp : Decodes p bytes a) (ext : Extends p) {k : Nat}
    (hk : k < bytes.length) : p (bytes.take k) = none := by
  cases h : p (bytes.take k) with
  | none => rfl
  | some r =>
      obtain ⟨b, s'⟩ := r
      have hall := ext _ b s' (bytes.drop k) h
      have hbytes := hp []
      rw [List.append_nil] at hbytes
      rw [List.take_append_drop, hbytes] at hall
      -- nothing is left over, but the bytes after the prefix are
      have hnil : s' ++ bytes.drop k = [] := (Prod.mk.inj (Option.some.inj hall)).2.symm
      have hlen := congrArg List.length hnil
      rw [List.length_append, List.length_drop, List.length_nil] at hlen
      omega

/-- What a window on the input gives: the value if it holds all of `bytes`. -/
theorem Decodes.take_append {a : α} (hp : Decodes p bytes a) (ext : Extends p)
    (rest : List UInt8) (k : Nat) :
    (p ((bytes ++ rest).take k)).map Prod.fst = if bytes.length ≤ k then some a else none := by
  by_cases hk : bytes.length ≤ k
  · rw [if_pos hk, List.take_append, List.take_of_length_le hk, hp]
    rfl
  · rw [if_neg hk, List.take_append_of_le_length (by omega), hp.take_eq_none ext (by omega)]
    rfl

end Rules

/-! ## Machine words -/

def encodeU16 (n : UInt16) : List UInt8 := encodeNat 2 n.toNat
def encodeU32 (n : UInt32) : List UInt8 := encodeNat 4 n.toNat
def encodeU64 (n : UInt64) : List UInt8 := encodeNat 8 n.toNat

def readU16 : Decoder UInt16 := do return UInt16.ofNat (← readNat 2)
def readU32 : Decoder UInt32 := do return UInt32.ofNat (← readNat 4)
def readU64 : Decoder UInt64 := do return UInt64.ofNat (← readNat 8)

@[simp] theorem length_encodeU16 (n : UInt16) : (encodeU16 n).length = 2 := length_encodeNat _ _
@[simp] theorem length_encodeU32 (n : UInt32) : (encodeU32 n).length = 4 := length_encodeNat _ _
@[simp] theorem length_encodeU64 (n : UInt64) : (encodeU64 n).length = 8 := length_encodeNat _ _

theorem decodes_readU16 (n : UInt16) : Decodes readU16 (encodeU16 n) n := by
  have h := (decodes_readNat (w := 2) n.toNat_lt).map UInt16.ofNat
  rwa [UInt16.ofNat_toNat] at h

theorem decodes_readU32 (n : UInt32) : Decodes readU32 (encodeU32 n) n := by
  have h := (decodes_readNat (w := 4) n.toNat_lt).map UInt32.ofNat
  rwa [UInt32.ofNat_toNat] at h

theorem decodes_readU64 (n : UInt64) : Decodes readU64 (encodeU64 n) n := by
  have h := (decodes_readNat (w := 8) n.toNat_lt).map UInt64.ofNat
  rwa [UInt64.ofNat_toNat] at h

theorem encodeU16_ofNat {n : Nat} (h : n < 2 ^ 16) : encodeU16 (UInt16.ofNat n) = encodeNat 2 n := by
  rw [encodeU16, UInt16.toNat_ofNat', Nat.mod_eq_of_lt h]

theorem encodeU32_ofNat {n : Nat} (h : n < 2 ^ 32) : encodeU32 (UInt32.ofNat n) = encodeNat 4 n := by
  rw [encodeU32, UInt32.toNat_ofNat', Nat.mod_eq_of_lt h]

theorem encodeU64_ofNat {n : Nat} (h : n < 2 ^ 64) : encodeU64 (UInt64.ofNat n) = encodeNat 8 n := by
  rw [encodeU64, UInt64.toNat_ofNat', Nat.mod_eq_of_lt h]

theorem UInt32.ofNat_inj_of_lt {m n : Nat} (hm : m < 2 ^ 32) (hn : n < 2 ^ 32)
    (h : UInt32.ofNat m = UInt32.ofNat n) : m = n := by
  have hwords := congrArg UInt32.toNat h
  rwa [UInt32.toNat_ofNat', UInt32.toNat_ofNat', Nat.mod_eq_of_lt hm, Nat.mod_eq_of_lt hn] at hwords

/-! ## Walking a sequence of values -/

section Walk

variable {α β : Type}

/-- Read `n` values from an offset on, the next one after as many bytes as `size` gives for the
last; the values with their offsets. -/
def walk (p : Nat → Decoder β) (size : β → Nat) (bytes : List UInt8) :
    Nat → Nat → Option (List (Nat × β))
  | 0, _ => some []
  | n + 1, offset => do
      let (b, _) ← p offset (bytes.drop offset)
      return (offset, b) :: (← walk p size bytes n (offset + size b))

/-- The offsets at which values start that are written one after the other. -/
def boundaries (encode : α → List UInt8) : Nat → List α → List Nat
  | _, [] => []
  | offset, a :: l => offset :: boundaries encode (offset + (encode a).length) l

/-- Where sizes are lengths, a walk lands on the start of each value. -/
theorem walk_flatMap {p : Nat → Decoder β} {size : β → Nat} {encode : α → List UInt8}
    {found : Nat → α → β} {l : List α}
    (hp : ∀ a ∈ l, ∀ offset, Decodes (p offset) (encode a) (found offset a))
    (hsize : ∀ a ∈ l, ∀ offset, size (found offset a) = (encode a).length)
    (before after : List UInt8) :
    walk p size (before ++ (l.flatMap encode ++ after)) l.length before.length =
      some (((boundaries encode before.length l).zip l).map fun e => (e.1, found e.1 e.2)) := by
  induction l generalizing before with
  | nil => rfl
  | cons a l ih =>
      have hread := hp a List.mem_cons_self before.length (l.flatMap encode ++ after)
      have hrest := ih (fun b hb => hp b (List.mem_cons_of_mem _ hb))
        (fun b hb => hsize b (List.mem_cons_of_mem _ hb)) (before ++ encode a)
      rw [List.length_append, List.append_assoc] at hrest
      rw [List.length_cons, walk, List.drop_left, List.flatMap_cons, List.append_assoc, hread]
      show (walk p size _ _ (before.length + size (found before.length a))).bind _ = _
      rw [hsize a List.mem_cons_self, hrest]
      rfl

end Walk
