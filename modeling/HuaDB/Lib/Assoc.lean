import Mathlib.Data.List.Basic
import Mathlib.Data.List.Nodup
import Mathlib.Logic.Function.Basic

/-!
Finite maps as association lists, for programs that iterate over a map, count
its entries or write them out in some order.

`Assoc.insert` overwrites the entry of its key where there is one and appends a
new entry otherwise, so a list with distinct keys keeps them distinct
(`Assoc.nodup_keys_insert`); reading is by `Assoc.find?`, and the two
rewrite rules `find?_insert` and `find?_erase` are all a client needs.
-/

/-- A finite map, as the list of its entries. -/
abbrev Assoc (κ υ : Type*) := List (κ × υ)

namespace Assoc

variable {κ υ : Type*} [DecidableEq κ]

/-- The value stored for a key. -/
def find? (k : κ) : Assoc κ υ → Option υ
  | [] => none
  | (k', v) :: m => if k' = k then some v else find? k m

/-- Overwrite the entry of a key, or append one. -/
def insert (k : κ) (v : υ) : Assoc κ υ → Assoc κ υ
  | [] => [(k, v)]
  | (k', v') :: m => if k' = k then (k, v) :: m else (k', v') :: insert k v m

/-- Drop every entry of a key. -/
def erase (k : κ) (m : Assoc κ υ) : Assoc κ υ :=
  m.filter fun e => e.1 ≠ k

/-- Store a value only where the key has none. -/
def insertNew (k : κ) (v : υ) (m : Assoc κ υ) : Assoc κ υ :=
  if (find? k m).isSome then m else insert k v m

/-- The keys of a map, in entry order. -/
def keys (m : Assoc κ υ) : List κ := m.map Prod.fst

@[simp] theorem find?_nil (k : κ) : find? k ([] : Assoc κ υ) = none := rfl

theorem find?_cons (k k' : κ) (v : υ) (m : Assoc κ υ) :
    find? k ((k', v) :: m) = if k' = k then some v else find? k m := rfl

theorem find?_insert (k k' : κ) (v : υ) (m : Assoc κ υ) :
    find? k' (insert k v m) = if k = k' then some v else find? k' m := by
  induction m with
  | nil => rfl
  | cons e m ih =>
      obtain ⟨a, w⟩ := e
      simp only [insert]
      by_cases hak : a = k
      · subst hak
        by_cases hk : a = k' <;> simp [find?_cons, hk]
      · by_cases hk : k = k'
        · subst hk
          simp [find?_cons, hak, ih]
        · simp [find?_cons, hak, ih, hk]

@[simp] theorem find?_insert_self (k : κ) (v : υ) (m : Assoc κ υ) :
    find? k (insert k v m) = some v := by
  rw [find?_insert, if_pos rfl]

/-- The later of two values stays. -/
theorem insert_insert (k : κ) (v w : υ) (m : Assoc κ υ) :
    insert k w (insert k v m) = insert k w m := by
  induction m with
  | nil => simp [insert]
  | cons e m ih =>
      obtain ⟨a, u⟩ := e
      by_cases hak : a = k <;> simp [insert, hak, ih]

/-- Storing a value changes nothing exactly where the key has that value. -/
theorem insert_eq_self_iff {k : κ} {v : υ} {m : Assoc κ υ} :
    insert k v m = m ↔ find? k m = some v := by
  induction m with
  | nil => simp [insert]
  | cons e m ih =>
      obtain ⟨a, w⟩ := e
      by_cases hak : a = k
      · subst hak
        simp [insert, find?_cons, eq_comm]
      · simp [insert, find?_cons, hak, ih]

theorem find?_insert_ne {k k' : κ} (h : k ≠ k') (v : υ) (m : Assoc κ υ) :
    find? k' (insert k v m) = find? k' m := by
  rw [find?_insert, if_neg h]

theorem find?_erase (k k' : κ) (m : Assoc κ υ) :
    find? k' (erase k m) = if k = k' then none else find? k' m := by
  induction m with
  | nil => simp [erase]
  | cons e m ih =>
      obtain ⟨a, w⟩ := e
      simp only [erase, List.filter_cons] at ih ⊢
      by_cases hak : a = k
      · subst hak
        by_cases hk : a = k'
        · subst hk
          simpa using ih
        · simpa [find?_cons, hk] using ih
      · simp only [hak, decide_not, decide_false, Bool.not_false, ↓reduceIte, find?_cons]
        simp only [decide_not] at ih
        by_cases hk : k = k'
        · subst hk
          simp [hak, ih]
        · simp [ih, hk]

@[simp] theorem find?_erase_self (k : κ) (m : Assoc κ υ) : find? k (erase k m) = none := by
  rw [find?_erase, if_pos rfl]

theorem find?_erase_ne {k k' : κ} (h : k ≠ k') (m : Assoc κ υ) :
    find? k' (erase k m) = find? k' m := by
  rw [find?_erase, if_neg h]

theorem find?_insert_isSome {k k' : κ} {v : υ} {m : Assoc κ υ} :
    (find? k' (insert k v m)).isSome ↔ k' = k ∨ (find? k' m).isSome := by
  rw [find?_insert]
  by_cases hk : k = k'
  · simp [hk]
  · simp [hk, Ne.symm hk]

theorem find?_append (k : κ) (m m' : Assoc κ υ) :
    find? k (m ++ m') = (find? k m).or (find? k m') := by
  induction m with
  | nil => rfl
  | cons e m ih =>
      obtain ⟨a, w⟩ := e
      rw [List.cons_append, find?_cons, find?_cons, ih]
      by_cases hak : a = k
      · rw [if_pos hak, if_pos hak]
        rfl
      · rw [if_neg hak, if_neg hak]

/-- The first entry of a key is the one that is read. -/
theorem find?_of_filter {k k' : κ} {v : υ} {m rest : Assoc κ υ}
    (h : m.filter (·.1 = k) = (k', v) :: rest) : find? k m = some v := by
  induction m with
  | nil => cases h
  | cons e m ih =>
      obtain ⟨a, w⟩ := e
      rw [List.filter_cons] at h
      rw [find?_cons]
      by_cases hak : a = k
      · rw [if_pos (decide_eq_true hak)] at h
        cases h
        exact if_pos hak
      · rw [if_neg (by simpa using hak)] at h
        rw [if_neg hak]
        exact ih h

theorem find?_erase_isSome {k k' : κ} {m : Assoc κ υ} :
    (find? k' (erase k m)).isSome ↔ k' ≠ k ∧ (find? k' m).isSome := by
  rw [find?_erase]
  by_cases hk : k = k'
  · simp [hk]
  · simp [hk, Ne.symm hk]

theorem find?_insert_eq_some_iff {k k' : κ} {v w : υ} {m : Assoc κ υ} :
    find? k' (insert k v m) = some w ↔ k' = k ∧ v = w ∨ k' ≠ k ∧ find? k' m = some w := by
  rw [find?_insert]
  by_cases hk : k = k'
  · simp [hk]
  · simp [hk, Ne.symm hk]

theorem find?_erase_eq_some_iff {k k' : κ} {w : υ} {m : Assoc κ υ} :
    find? k' (erase k m) = some w ↔ k' ≠ k ∧ find? k' m = some w := by
  rw [find?_erase]
  by_cases hk : k = k'
  · simp [hk]
  · simp [hk, Ne.symm hk]

/-- What is read off a map, after an entry is stored. -/
theorem comp_find?_insert {γ : Type*} (f : Option υ → γ) (k : κ) (v : υ) (m : Assoc κ υ) :
    (fun k' => f (find? k' (insert k v m))) =
      Function.update (fun k' => f (find? k' m)) k (f (some v)) := by
  funext k'
  rw [find?_insert, Function.update_apply]
  by_cases hk : k = k'
  · rw [if_pos hk, if_pos hk.symm]
  · rw [if_neg hk, if_neg (Ne.symm hk)]

/-- What is read off a map, after an entry is dropped. -/
theorem comp_find?_erase {γ : Type*} (f : Option υ → γ) (k : κ) (m : Assoc κ υ) :
    (fun k' => f (find? k' (erase k m))) =
      Function.update (fun k' => f (find? k' m)) k (f none) := by
  funext k'
  rw [find?_erase, Function.update_apply]
  by_cases hk : k = k'
  · rw [if_pos hk, if_pos hk.symm]
  · rw [if_neg hk, if_neg (Ne.symm hk)]

theorem find?_insertNew (k k' : κ) (v : υ) (m : Assoc κ υ) :
    find? k' (insertNew k v m) =
      if k = k' then some ((find? k m).getD v) else find? k' m := by
  unfold insertNew
  cases hf : find? k m with
  | none => simp [find?_insert]
  | some w =>
      by_cases hk : k = k'
      · subst hk
        simp [hf]
      · simp [hk]

/-- An entry survives `insertNew`, also at its own key. -/
theorem find?_insertNew_of_some {k : κ} {v : υ} {m : Assoc κ υ} (h : find? k m = some v) (k' : κ)
    (w : υ) : find? k (insertNew k' w m) = some v := by
  rw [find?_insertNew]
  split
  · rename_i hk
    subst hk
    rw [h]
    rfl
  · exact h

/-- An entry after `insertNew` was there before or is the new one. -/
theorem find?_insertNew_cases {k k' : κ} {v w : υ} {m : Assoc κ υ}
    (h : find? k (insertNew k' w m) = some v) : find? k m = some v ∨ k' = k ∧ v = w := by
  rw [find?_insertNew] at h
  split at h
  · rename_i hk
    subst hk
    cases hold : find? k' m with
    | none =>
        rw [hold] at h
        cases h
        exact .inr ⟨rfl, rfl⟩
    | some old =>
        rw [hold] at h
        exact .inl h
  · exact .inl h

theorem find?_insertNew_self (k : κ) (v : υ) (m : Assoc κ υ) :
    find? k (insertNew k v m) = some ((find? k m).getD v) := by
  rw [find?_insertNew, if_pos rfl]

theorem mem_of_find? {k : κ} {v : υ} {m : Assoc κ υ} (h : find? k m = some v) : (k, v) ∈ m := by
  induction m with
  | nil => cases h
  | cons e m ih =>
      obtain ⟨a, w⟩ := e
      rw [find?_cons] at h
      split at h
      · rename_i hak
        subst hak
        cases h
        exact List.mem_cons_self
      · exact List.mem_cons_of_mem _ (ih h)

theorem find?_eq_none_iff {k : κ} {m : Assoc κ υ} : find? k m = none ↔ k ∉ keys m := by
  induction m with
  | nil => simp [keys]
  | cons e m ih =>
      obtain ⟨a, w⟩ := e
      rw [find?_cons]
      by_cases hak : a = k
      · simp [keys, hak]
      · simp only [hak, ↓reduceIte, ih]
        simp [keys, Ne.symm hak]

theorem mem_keys_iff {k : κ} {m : Assoc κ υ} : k ∈ keys m ↔ (find? k m).isSome := by
  rw [← not_iff_not, ← find?_eq_none_iff]
  simp

theorem find?_of_mem_nodup {k : κ} {v : υ} {m : Assoc κ υ} (nd : (keys m).Nodup)
    (h : (k, v) ∈ m) : find? k m = some v := by
  induction m with
  | nil => cases h
  | cons e m ih =>
      obtain ⟨a, w⟩ := e
      simp only [keys, List.map_cons, List.nodup_cons] at nd
      rcases List.mem_cons.mp h with heq | hmem
      · cases heq
        simp [find?_cons]
      · have hne : a ≠ k := by
          rintro rfl
          exact nd.1 (List.mem_map.mpr ⟨_, hmem, rfl⟩)
        rw [find?_cons, if_neg hne]
        exact ih nd.2 hmem

theorem keys_insert (k : κ) (v : υ) (m : Assoc κ υ) :
    keys (insert k v m) = if k ∈ keys m then keys m else keys m ++ [k] := by
  induction m with
  | nil => simp [insert, keys]
  | cons e m ih =>
      obtain ⟨a, w⟩ := e
      simp only [insert]
      by_cases hak : a = k
      · simp [keys, hak]
      · simp only [hak, ↓reduceIte, keys, List.map_cons, List.mem_cons, Ne.symm hak, false_or]
        simp only [keys] at ih
        rw [ih]
        split <;> rename_i hk <;> simp [hk]

theorem nodup_keys_insert {k : κ} {v : υ} {m : Assoc κ υ} (nd : (keys m).Nodup) :
    (keys (insert k v m)).Nodup := by
  rw [keys_insert]
  split
  · exact nd
  · rename_i hk
    exact List.Nodup.append nd (List.nodup_singleton k)
      (List.disjoint_singleton.mpr hk)

theorem nodup_keys_erase {k : κ} {m : Assoc κ υ} (nd : (keys m).Nodup) :
    (keys (erase k m)).Nodup :=
  nd.sublist (List.filter_sublist.map _)

theorem nodup_keys_insertNew {k : κ} {v : υ} {m : Assoc κ υ} (nd : (keys m).Nodup) :
    (keys (insertNew k v m)).Nodup := by
  unfold insertNew
  split
  · exact nd
  · exact nodup_keys_insert nd

theorem forall_mem_insert {P : κ × υ → Prop} {k : κ} {v : υ} {m : Assoc κ υ}
    (hm : ∀ e ∈ m, P e) (hnew : P (k, v)) : ∀ e ∈ insert k v m, P e := by
  induction m with
  | nil => exact List.forall_mem_singleton.mpr hnew
  | cons e m ih =>
      obtain ⟨hhead, htail⟩ := List.forall_mem_cons.mp hm
      obtain ⟨a, w⟩ := e
      rw [insert]
      split
      · exact List.forall_mem_cons.mpr ⟨hnew, htail⟩
      · exact List.forall_mem_cons.mpr ⟨hhead, ih htail⟩

/-- A map built entry by entry. -/
def ofEntries (l : List (κ × υ)) : Assoc κ υ := l.foldl (fun m e => insert e.1 e.2 m) []

theorem insert_of_not_mem_keys {k : κ} {v : υ} {m : Assoc κ υ} (h : k ∉ keys m) :
    insert k v m = m ++ [(k, v)] := by
  induction m with
  | nil => rfl
  | cons e m ih =>
      obtain ⟨a, w⟩ := e
      obtain ⟨hne, hmem⟩ := not_or.mp (mt List.mem_cons.mpr h)
      rw [insert, if_neg (Ne.symm hne), ih hmem]
      rfl

theorem nodup_keys_ofEntries (l : List (κ × υ)) : (keys (ofEntries l)).Nodup := by
  have build (m : Assoc κ υ) (nd : (keys m).Nodup) :
      (keys (l.foldl (fun m e => insert e.1 e.2 m) m)).Nodup := by
    induction l generalizing m with
    | nil => exact nd
    | cons e l ih => exact ih (insert e.1 e.2 m) (nodup_keys_insert nd)
  exact build [] List.nodup_nil

/-- Entries with distinct keys are the map they build. -/
theorem ofEntries_eq_self {l : List (κ × υ)} (nd : (keys l).Nodup) : ofEntries l = l := by
  have build (done rest : List (κ × υ)) (nd : (keys (done ++ rest)).Nodup) :
      rest.foldl (fun m e => insert e.1 e.2 m) done = done ++ rest := by
    induction rest generalizing done with
    | nil => exact (List.append_nil done).symm
    | cons e rest ih =>
        have hnew : e.1 ∉ keys done := by
          rw [keys, List.map_append, List.map_cons] at nd
          exact fun hmem => (List.nodup_append.mp nd).2.2 e.1 hmem e.1 List.mem_cons_self rfl
        rw [List.foldl_cons, insert_of_not_mem_keys hnew, ih]
        · simp
        · simpa using nd
  exact build [] l nd

/-- Entries of other keys leave the value of a key alone. -/
theorem find?_foldl_insert_of_not_mem {k : κ} {l : List (κ × υ)} (h : k ∉ keys l)
    (m : Assoc κ υ) : find? k (l.foldl (fun m e => insert e.1 e.2 m) m) = find? k m := by
  induction l generalizing m with
  | nil => rfl
  | cons e l ih =>
      obtain ⟨hne, hmem⟩ := not_or.mp (mt List.mem_cons.mpr h)
      rw [List.foldl_cons, ih hmem, find?_insert_ne (Ne.symm hne)]

/-- Entries that agree on a key give it their value, where there is one. -/
theorem find?_foldl_insert_of_mem {k : κ} {v : υ} {l : List (κ × υ)} (h : k ∈ keys l)
    (hv : ∀ e ∈ l, e.1 = k → e.2 = v) (m : Assoc κ υ) :
    find? k (l.foldl (fun m e => insert e.1 e.2 m) m) = some v := by
  induction l generalizing m with
  | nil => cases h
  | cons e l ih =>
      obtain ⟨hhead, htail⟩ := List.forall_mem_cons.mp hv
      rw [List.foldl_cons]
      by_cases hmem : k ∈ keys l
      · exact ih hmem htail _
      · have hkey : e.1 = k := ((List.mem_cons.mp h).resolve_right hmem).symm
        rw [find?_foldl_insert_of_not_mem hmem, hkey, find?_insert_self, hhead hkey]

/-- A key of the entries gets the value of one of its entries. -/
theorem exists_find?_foldl_insert {k : κ} {l : List (κ × υ)} (h : k ∈ keys l) (m : Assoc κ υ) :
    ∃ v, (k, v) ∈ l ∧ find? k (l.foldl (fun m e => insert e.1 e.2 m) m) = some v := by
  induction l generalizing m with
  | nil => cases h
  | cons e l ih =>
      rw [List.foldl_cons]
      by_cases hmem : k ∈ keys l
      · obtain ⟨v, hv, hfind⟩ := ih hmem (insert e.1 e.2 m)
        exact ⟨v, List.mem_cons_of_mem _ hv, hfind⟩
      · have hkey : k = e.1 := (List.mem_cons.mp h).resolve_right hmem
        subst hkey
        refine ⟨e.2, List.mem_cons_self, ?_⟩
        rw [find?_foldl_insert_of_not_mem hmem, find?_insert_self]

/-! ## Maps kept in the order of their keys -/

/-- A new entry, before the first one with a greater key. -/
def place (lt : κ → κ → Bool) (k : κ) (v : υ) : Assoc κ υ → Assoc κ υ
  | [] => [(k, v)]
  | e :: m => if lt k e.1 then (k, v) :: e :: m else e :: place lt k v m

/-- Change the value of a key in place, or place a new entry. -/
def upsert (lt : κ → κ → Bool) (k : κ) (f : Option υ → υ) (m : Assoc κ υ) : Assoc κ υ :=
  match find? k m with
  | some v => insert k (f (some v)) m
  | none => place lt k (f none) m

omit [DecidableEq κ] in
theorem place_perm (lt : κ → κ → Bool) (k : κ) (v : υ) (m : Assoc κ υ) :
    (place lt k v m).Perm ((k, v) :: m) := by
  induction m with
  | nil => exact .refl _
  | cons e m ih =>
      rw [place]
      split
      · exact .refl _
      · exact (ih.cons e).trans (.swap (k, v) e m)

theorem find?_place (lt : κ → κ → Bool) {k : κ} {m : Assoc κ υ} (h : find? k m = none) (v : υ)
    (k' : κ) : find? k' (place lt k v m) = if k = k' then some v else find? k' m := by
  induction m with
  | nil => rfl
  | cons e m ih =>
      rcases e with ⟨a, w⟩
      rw [find?_cons] at h
      have hak : a ≠ k := fun hak => by simp [hak] at h
      rw [if_neg hak] at h
      rw [place]
      split
      · rfl
      · rw [find?_cons, ih h, find?_cons]
        by_cases ha : a = k'
        · subst ha
          rw [if_pos rfl, if_neg hak.symm, if_pos rfl]
        · rw [if_neg ha, if_neg ha]

theorem find?_upsert (lt : κ → κ → Bool) (k k' : κ) (f : Option υ → υ) (m : Assoc κ υ) :
    find? k' (upsert lt k f m) = if k = k' then some (f (find? k m)) else find? k' m := by
  rw [upsert]
  cases h : find? k m with
  | some v => exact find?_insert k k' _ m
  | none => exact find?_place lt h _ k'

theorem nodup_keys_upsert (lt : κ → κ → Bool) (k : κ) (f : Option υ → υ) {m : Assoc κ υ}
    (nd : (keys m).Nodup) : (keys (upsert lt k f m)).Nodup := by
  rw [upsert]
  cases h : find? k m with
  | some v => exact nodup_keys_insert nd
  | none =>
      have hperm : (keys (place lt k (f none) m)).Perm (k :: keys m) :=
        (place_perm lt k (f none) m).map Prod.fst
      exact hperm.nodup_iff.mpr (List.nodup_cons.mpr ⟨find?_eq_none_iff.mp h, nd⟩)

theorem mem_keys_upsert (lt : κ → κ → Bool) (k k' : κ) (f : Option υ → υ) (m : Assoc κ υ) :
    k' ∈ keys (upsert lt k f m) ↔ k' = k ∨ k' ∈ keys m := by
  rw [mem_keys_iff, find?_upsert, mem_keys_iff]
  by_cases h : k = k'
  · simp [h]
  · simp [h, Ne.symm h]

end Assoc
