/-!
# Dict — finite maps with texts for keys

A map is the list of its entries in strictly increasing order of key, so equal maps are equal lists
and listing a map is reading its entries off.  Texts are ordered by their characters' code points.

* `Dict.get?_insert`, `Dict.get?_erase` — what a change does to every key.
* `Dict.ext_get?` — a map is known by the values at its keys.
-/

namespace Cam

/-- A finite map from texts. -/
structure Dict (α : Type) where
  /-- The entries in increasing order of key. -/
  entries : List (String × α)
  /-- The order of the keys is strict. -/
  sorted : entries.Pairwise fun a b => a.1 < b.1
  deriving DecidableEq

namespace Dict

variable {α : Type}

/-! ## Entries -/

/-- The value at a key. -/
def lookup (key : String) : List (String × α) → Option α
  | [] => none
  | (k, v) :: rest => if k = key then some v else lookup key rest

/-- The entries with one more, or with another value at the key. -/
def insertEntry (key : String) (value : α) : List (String × α) → List (String × α)
  | [] => [(key, value)]
  | (k, v) :: rest =>
    if key < k then (key, value) :: (k, v) :: rest
    else if key = k then (key, value) :: rest
    else (k, v) :: insertEntry key value rest

/-- The keys after an insertion are the new one and the old ones. -/
theorem mem_insertEntry {key : String} {value : α} {es : List (String × α)} {e : String × α}
    (h : e ∈ insertEntry key value es) : e = (key, value) ∨ e ∈ es := by
  induction es with
  | nil => exact Or.inl (List.mem_singleton.1 h)
  | cons head rest ih =>
    obtain ⟨k, v⟩ := head
    unfold insertEntry at h
    split at h
    next => exact List.mem_cons.1 h
    next =>
      split at h
      next =>
        rcases List.mem_cons.1 h with h | h
        · exact Or.inl h
        · exact Or.inr (List.mem_cons_of_mem _ h)
      next =>
        rcases List.mem_cons.1 h with h | h
        · exact Or.inr (h ▸ List.mem_cons_self)
        · exact (ih h).imp_right (List.mem_cons_of_mem _)

/-- **Insertion keeps the order.** -/
theorem pairwise_insertEntry (key : String) (value : α) {es : List (String × α)}
    (h : es.Pairwise fun a b => a.1 < b.1) :
    (insertEntry key value es).Pairwise fun a b => a.1 < b.1 := by
  induction es with
  | nil => exact List.pairwise_singleton _ _
  | cons head rest ih =>
    obtain ⟨k, v⟩ := head
    obtain ⟨hk, hrest⟩ := List.pairwise_cons.1 h
    unfold insertEntry
    split
    next hlt =>
      refine List.pairwise_cons.2 ⟨fun e he => ?_, h⟩
      rcases List.mem_cons.1 he with rfl | he
      · exact hlt
      · exact String.lt_trans hlt (hk e he)
    next hlt =>
      split
      next heq => exact List.pairwise_cons.2 ⟨fun e he => heq ▸ hk e he, hrest⟩
      next hne =>
        refine List.pairwise_cons.2 ⟨fun e he => ?_, ih hrest⟩
        rcases mem_insertEntry he with rfl | he
        · exact Std.lt_of_le_of_ne (String.not_lt.1 hlt) (Ne.symm hne)
        · exact hk e he

/-! ## Maps -/

/-- The map without entries. -/
def empty : Dict α := ⟨[], List.Pairwise.nil⟩

/-- The value at a key, if it has one. -/
def get? (d : Dict α) (key : String) : Option α := lookup key d.entries

/-- The map with the key set to the value. -/
def insert (d : Dict α) (key : String) (value : α) : Dict α :=
  ⟨insertEntry key value d.entries, pairwise_insertEntry key value d.sorted⟩

/-- The map without the key. -/
def erase (d : Dict α) (key : String) : Dict α :=
  ⟨d.entries.filter (·.1 ≠ key), d.sorted.filter _⟩

/-- The number of keys. -/
def size (d : Dict α) : Nat := d.entries.length

/-- Whether there is no key. -/
def isEmpty (d : Dict α) : Bool := d.entries.isEmpty

@[ext] theorem ext {d d' : Dict α} (h : d.entries = d'.entries) : d = d' := by
  obtain ⟨es, _⟩ := d
  obtain ⟨es', _⟩ := d'
  obtain rfl : es = es' := h
  rfl

/-! ## What a change does to every key -/

@[simp] theorem get?_empty (key : String) : (empty : Dict α).get? key = none := rfl

theorem lookup_insertEntry (key : String) (value : α) (k : String) (es : List (String × α)) :
    lookup k (insertEntry key value es) = if key = k then some value else lookup k es := by
  induction es with
  | nil => rfl
  | cons head rest ih =>
    obtain ⟨k', v⟩ := head
    unfold insertEntry
    split
    next => rfl
    next =>
      split
      next heq =>
        subst heq
        by_cases h : key = k
        · simp [lookup, h]
        · simp [lookup, h]
      next hne =>
        by_cases h : k' = k
        · subst h
          simp [lookup, hne]
        · simp [lookup, h, ih]

/-- **Insertion sets one key and leaves the others.** -/
theorem get?_insert (d : Dict α) (key : String) (value : α) (k : String) :
    (d.insert key value).get? k = if key = k then some value else d.get? k :=
  lookup_insertEntry key value k d.entries

@[simp] theorem get?_insert_self (d : Dict α) (key : String) (value : α) :
    (d.insert key value).get? key = some value := by
  rw [get?_insert, if_pos rfl]

theorem lookup_filter_ne (key k : String) (es : List (String × α)) :
    lookup k (es.filter (·.1 ≠ key)) = if key = k then none else lookup k es := by
  induction es with
  | nil => simp [lookup]
  | cons head rest ih =>
    obtain ⟨k', v⟩ := head
    by_cases h : k' = key
    · subst h
      rw [List.filter_cons_of_neg (by simp), ih]
      by_cases hk : k' = k
      · simp [hk]
      · simp [hk, lookup]
    · rw [List.filter_cons_of_pos (by simpa using h), lookup, ih, lookup]
      by_cases hk : k' = k
      · have hkk : key ≠ k := fun e => h (hk.trans e.symm)
        simp [hk, hkk]
      · simp [hk]

/-- **Erasure removes one key and leaves the others.** -/
theorem get?_erase (d : Dict α) (key k : String) :
    (d.erase key).get? k = if key = k then none else d.get? k :=
  lookup_filter_ne key k d.entries

/-! ## Entries and keys -/

theorem mem_of_lookup {key : String} {value : α} {es : List (String × α)}
    (h : lookup key es = some value) : (key, value) ∈ es := by
  induction es with
  | nil => cases h
  | cons head rest ih =>
    obtain ⟨k, v⟩ := head
    rw [lookup] at h
    split at h
    next hk =>
      cases h
      exact hk ▸ List.mem_cons_self
    next => exact List.mem_cons_of_mem _ (ih h)

theorem lookup_of_mem {key : String} {value : α} {es : List (String × α)}
    (hsorted : es.Pairwise fun a b => a.1 < b.1) (h : (key, value) ∈ es) :
    lookup key es = some value := by
  induction es with
  | nil => cases h
  | cons head rest ih =>
    obtain ⟨hhead, hrest⟩ := List.pairwise_cons.1 hsorted
    rcases List.mem_cons.1 h with rfl | h
    · exact if_pos rfl
    · have hlt : head.1 < key := hhead _ h
      have hne : head.1 ≠ key := fun he => String.lt_irrefl key (he ▸ hlt)
      rw [lookup, if_neg hne]
      exact ih hrest h

/-- The entries are the keys with their values. -/
theorem mem_entries_iff (d : Dict α) (key : String) (value : α) :
    (key, value) ∈ d.entries ↔ d.get? key = some value :=
  ⟨lookup_of_mem d.sorted, mem_of_lookup⟩

/-- **Maps with the same value at every key are the same.** -/
theorem ext_get? {d d' : Dict α} (h : ∀ key, d.get? key = d'.get? key) : d = d' := by
  have hnodup (d : Dict α) : d.entries.Nodup := by
    refine d.sorted.imp fun {a b} hlt heq => ?_
    subst heq
    exact String.lt_irrefl _ hlt
  have hmem : ∀ e, e ∈ d.entries ↔ e ∈ d'.entries := fun (key, value) => by
    rw [mem_entries_iff, mem_entries_iff, h]
  have hperm : d.entries.Perm d'.entries :=
    (List.perm_ext_iff_of_nodup (hnodup d) (hnodup d')).2 hmem
  refine ext (hperm.eq_of_pairwise (fun a b _ _ hab hba => ?_) d.sorted d'.sorted)
  exact absurd (String.lt_trans hab hba) (String.lt_irrefl _)

/-- Different keys can be set in either order. -/
theorem insert_comm (d : Dict α) {key key' : String} (hne : key ≠ key') (value value' : α) :
    (d.insert key value).insert key' value' = (d.insert key' value').insert key value := by
  refine ext_get? fun k => ?_
  simp only [get?_insert]
  by_cases h : key = k
  · have h' : key' ≠ k := fun h' => hne (h.trans h'.symm)
    rw [if_pos h, if_neg h', if_pos h]
  · rw [if_neg h, if_neg h]

end Dict

end Cam
