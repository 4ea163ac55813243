/-!
# Finite maps in order of first insertion

`Table κ α` maps finitely many keys to values and keeps them in the order in which the keys first
came in. `get?` is the view: every operation has one lemma that says what it does to `get?`.
Inserting a key that was absent and erasing it again gives back the very same table
(`erase_insert`).
-/

namespace Timetabling

/-- A finite map; its entries stand in the order in which their keys were first inserted. -/
structure Table (κ α : Type) where
  entries : List (κ × α)
  nodup : (entries.map Prod.fst).Nodup
deriving Repr, DecidableEq

namespace Table

variable {κ α β : Type}

@[ext] theorem ext {s t : Table κ α} (h : s.entries = t.entries) : s = t := by
  cases s; cases t; cases h; rfl

def empty : Table κ α := ⟨[], by simp⟩

instance : EmptyCollection (Table κ α) := ⟨empty⟩

instance : Inhabited (Table κ α) := ⟨empty⟩

def keys (t : Table κ α) : List κ := t.entries.map Prod.fst

def values (t : Table κ α) : List α := t.entries.map Prod.snd

def size (t : Table κ α) : Nat := t.entries.length

def isEmpty (t : Table κ α) : Bool := t.entries.isEmpty

/-- `k ∈ t` says that `k` is one of the keys of `t`. -/
instance : Membership κ (Table κ α) := ⟨fun t k => k ∈ t.keys⟩

theorem nodup_keys (t : Table κ α) : t.keys.Nodup := t.nodup

@[simp] theorem keys_empty : (∅ : Table κ α).keys = [] := rfl

@[simp] theorem size_empty : (∅ : Table κ α).size = 0 := rfl

@[simp] theorem not_mem_empty (k : κ) : ¬ k ∈ (∅ : Table κ α) := List.not_mem_nil

@[simp] theorem length_keys (t : Table κ α) : t.keys.length = t.size := by simp [keys, size]

@[simp] theorem length_values (t : Table κ α) : t.values.length = t.size := by simp [values, size]

theorem isEmpty_iff {t : Table κ α} : t.isEmpty = true ↔ t.size = 0 := by
  simp [isEmpty, size]

theorem size_le {s : Table κ α} {t : Table κ β} (h : ∀ k ∈ s, k ∈ t) : s.size ≤ t.size := by
  rw [← length_keys, ← length_keys]
  exact s.nodup_keys.length_le_of_subset h

variable [DecidableEq κ]

instance (t : Table κ α) (k : κ) : Decidable (k ∈ t) :=
  inferInstanceAs (Decidable (k ∈ t.keys))

def get? (t : Table κ α) (k : κ) : Option α := t.entries.lookup k

def getD (t : Table κ α) (k : κ) (default : α) : α := (t.get? k).getD default

/-- Sets the value of `k` in place when `k` has an entry and puts a new entry at the end otherwise.
-/
def insertEntry (k : κ) (v : α) : List (κ × α) → List (κ × α)
  | [] => [(k, v)]
  | e :: es => if e.1 = k then (k, v) :: es else e :: insertEntry k v es

theorem keys_insertEntry (k : κ) (v : α) (es : List (κ × α)) :
    (insertEntry k v es).map Prod.fst =
      if k ∈ es.map Prod.fst then es.map Prod.fst else es.map Prod.fst ++ [k] := by
  induction es with
  | nil => simp [insertEntry]
  | cons e es ih =>
    by_cases h : e.1 = k
    · simp [insertEntry, h]
    · have h' : ¬ k = e.1 := fun hk => h hk.symm
      simp only [insertEntry, h, if_false, List.map_cons, ih, List.mem_cons, h', false_or]
      split <;> simp

theorem nodup_insertEntry (k : κ) (v : α) {es : List (κ × α)} (h : (es.map Prod.fst).Nodup) :
    ((insertEntry k v es).map Prod.fst).Nodup := by
  rw [keys_insertEntry]
  split
  · exact h
  · next hk =>
    rw [List.nodup_append]
    refine ⟨h, by simp, fun a ha b hb hab => ?_⟩
    rw [List.mem_singleton] at hb
    exact hk (hb ▸ hab ▸ ha)

def insert (t : Table κ α) (k : κ) (v : α) : Table κ α :=
  ⟨insertEntry k v t.entries, nodup_insertEntry k v t.nodup⟩

def erase (t : Table κ α) (k : κ) : Table κ α :=
  ⟨t.entries.filter fun e => e.1 ≠ k,
    t.nodup.sublist ((List.filter_sublist).map Prod.fst)⟩

/-- The entries of a list of pairs; the last pair of a key gives its value. -/
def ofList (es : List (κ × α)) : Table κ α :=
  es.foldl (fun t e => t.insert e.1 e.2) ∅

/-- Applies `f` to every value. -/
def map (f : α → β) (t : Table κ α) : Table κ β :=
  ⟨t.entries.map fun e => (e.1, f e.2), by simpa [List.map_map, Function.comp_def] using t.nodup⟩

@[simp] theorem get?_empty (k : κ) : (∅ : Table κ α).get? k = none := rfl

theorem lookup_cons_eq (e : κ × α) (es : List (κ × α)) (x : κ) :
    (e :: es).lookup x = if x = e.1 then some e.2 else es.lookup x := by
  obtain ⟨k, v⟩ := e
  by_cases h : x = k
  · simp [h]
  · simp [List.lookup_cons, h, beq_eq_false_iff_ne.2 h]

theorem lookup_insertEntry (k : κ) (v : α) (es : List (κ × α)) (x : κ) :
    (insertEntry k v es).lookup x = if x = k then some v else es.lookup x := by
  induction es with
  | nil => simp [insertEntry, lookup_cons_eq]
  | cons e es ih =>
    by_cases h : e.1 = k
    · by_cases hx : x = k <;> simp [insertEntry, lookup_cons_eq, h, hx]
    · by_cases hx : x = e.1
      · simp [insertEntry, lookup_cons_eq, h, hx]
      · simp [insertEntry, lookup_cons_eq, h, hx, ih]

theorem get?_insert (t : Table κ α) (k : κ) (v : α) (x : κ) :
    (t.insert k v).get? x = if x = k then some v else t.get? x :=
  lookup_insertEntry k v t.entries x

@[simp] theorem get?_insert_self (t : Table κ α) (k : κ) (v : α) :
    (t.insert k v).get? k = some v := by simp [get?_insert]

theorem get?_insert_of_ne (t : Table κ α) (v : α) {k x : κ} (h : x ≠ k) :
    (t.insert k v).get? x = t.get? x := by simp [get?_insert, h]

theorem lookup_filter_ne (k : κ) (es : List (κ × α)) (x : κ) :
    (es.filter fun e => e.1 ≠ k).lookup x = if x = k then none else es.lookup x := by
  induction es with
  | nil => simp
  | cons e es ih =>
    by_cases hk : e.1 = k
    · rw [List.filter_cons_of_neg (by simpa using hk), ih, lookup_cons_eq, hk]
      by_cases hx : x = k <;> simp [hx]
    · rw [List.filter_cons_of_pos (by simpa using hk), lookup_cons_eq, lookup_cons_eq, ih]
      by_cases hx : x = e.1 <;> simp [hx, hk]

theorem get?_erase (t : Table κ α) (k x : κ) :
    (t.erase k).get? x = if x = k then none else t.get? x :=
  lookup_filter_ne k t.entries x

theorem lookup_isSome (es : List (κ × α)) (x : κ) :
    (es.lookup x).isSome = true ↔ x ∈ es.map Prod.fst := by
  induction es with
  | nil => simp
  | cons e es ih => by_cases hx : x = e.1 <;> simp_all [lookup_cons_eq]

theorem lookup_eq_some_iff {es : List (κ × α)} (h : (es.map Prod.fst).Nodup) {x : κ} {v : α} :
    es.lookup x = some v ↔ (x, v) ∈ es := by
  induction es with
  | nil => simp
  | cons e es ih =>
    obtain ⟨hn, hes⟩ := List.nodup_cons.1 h
    rw [lookup_cons_eq, List.mem_cons]
    by_cases hx : x = e.1
    · have hv : ¬ (x, v) ∈ es := fun hm => hn (hx ▸ List.mem_map_of_mem hm)
      rw [if_pos hx]
      constructor
      · intro he
        cases he
        exact .inl (Prod.ext hx rfl)
      · rintro (he | hm)
        · rw [← he]
        · exact absurd hm hv
    · have hne : (x, v) ≠ e := fun he => hx (congrArg Prod.fst he)
      rw [if_neg hx, ih hes]
      exact ⟨.inr, fun hm => hm.resolve_left hne⟩

/-- The entries are the keys with the values that `get?` finds. -/
theorem mem_entries {t : Table κ α} {k : κ} {v : α} : (k, v) ∈ t.entries ↔ t.get? k = some v :=
  (lookup_eq_some_iff t.nodup).symm

theorem isSome_get? {t : Table κ α} {k : κ} : (t.get? k).isSome = true ↔ k ∈ t :=
  lookup_isSome t.entries k

theorem get?_eq_none {t : Table κ α} {k : κ} : t.get? k = none ↔ ¬ k ∈ t := by
  rw [← isSome_get?]; cases t.get? k <;> simp

theorem mem_insert {t : Table κ α} {k x : κ} {v : α} : x ∈ t.insert k v ↔ x = k ∨ x ∈ t := by
  rw [← isSome_get?, ← isSome_get?, get?_insert]
  by_cases h : x = k <;> simp [h]

theorem mem_erase {t : Table κ α} {k x : κ} : x ∈ t.erase k ↔ x ≠ k ∧ x ∈ t := by
  rw [← isSome_get?, ← isSome_get?, get?_erase]
  by_cases h : x = k <;> simp [h]

theorem keys_insert (t : Table κ α) (k : κ) (v : α) :
    (t.insert k v).keys = if k ∈ t then t.keys else t.keys ++ [k] :=
  keys_insertEntry k v t.entries

theorem keys_insert_of_mem {t : Table κ α} {k : κ} (v : α) (h : k ∈ t) :
    (t.insert k v).keys = t.keys := by rw [keys_insert, if_pos h]

theorem insertEntry_of_lookup {k : κ} {v : α} {es : List (κ × α)} (h : es.lookup k = some v) :
    insertEntry k v es = es := by
  induction es with
  | nil => simp at h
  | cons e es ih =>
    rw [lookup_cons_eq] at h
    by_cases hk : k = e.1
    · obtain ⟨k', w⟩ := e
      simp_all [insertEntry]
    · have hk' : ¬ e.1 = k := fun he => hk he.symm
      rw [if_neg hk] at h
      simp [insertEntry, hk', ih h]

/-- Setting a key to the value that it has changes nothing. -/
theorem insert_eq_self {t : Table κ α} {k : κ} {v : α} (h : t.get? k = some v) :
    t.insert k v = t :=
  ext (insertEntry_of_lookup h)

theorem insertEntry_of_not_mem (k : κ) (v : α) {es : List (κ × α)} (h : ¬ k ∈ es.map Prod.fst) :
    insertEntry k v es = es ++ [(k, v)] := by
  induction es with
  | nil => rfl
  | cons e es ih =>
    simp only [List.map_cons, List.mem_cons, not_or] at h
    have h' : ¬ e.1 = k := fun hk => h.1 hk.symm
    simp [insertEntry, h', ih h.2]

theorem entries_insert_of_not_mem {t : Table κ α} {k : κ} (v : α) (h : ¬ k ∈ t) :
    (t.insert k v).entries = t.entries ++ [(k, v)] :=
  insertEntry_of_not_mem k v h

theorem size_insert_of_not_mem {t : Table κ α} {k : κ} (v : α) (h : ¬ k ∈ t) :
    (t.insert k v).size = t.size + 1 := by
  simp [size, entries_insert_of_not_mem v h]

/-- Placing a new key and taking it away again leaves no trace. -/
theorem erase_insert {t : Table κ α} {k : κ} (v : α) (h : ¬ k ∈ t) :
    (t.insert k v).erase k = t := by
  apply ext
  show (t.insert k v).entries.filter (fun e => e.1 ≠ k) = t.entries
  rw [entries_insert_of_not_mem v h, List.filter_append]
  have hall : t.entries.filter (fun e => e.1 ≠ k) = t.entries := by
    rw [List.filter_eq_self]
    intro e he
    have : e.1 ≠ k := fun hk => h (hk ▸ List.mem_map_of_mem he)
    simpa using this
  rw [hall]
  simp

theorem insertEntry_insertEntry (k : κ) (v w : α) (es : List (κ × α)) :
    insertEntry k w (insertEntry k v es) = insertEntry k w es := by
  induction es with
  | nil => simp [insertEntry]
  | cons e es ih => by_cases h : e.1 = k <;> simp [insertEntry, h, ih]

/-- Of two values set one after the other the second stays. -/
theorem insert_insert (t : Table κ α) (k : κ) (v w : α) :
    (t.insert k v).insert k w = t.insert k w :=
  ext (insertEntry_insertEntry k v w t.entries)

/-! ### Tables made from lists -/

theorem get?_foldl_insert (es : List (κ × α)) (t : Table κ α) (k : κ) :
    (es.foldl (fun t e => t.insert e.1 e.2) t).get? k = (es.reverse.lookup k).or (t.get? k) := by
  induction es generalizing t with
  | nil => simp
  | cons e es ih =>
    rw [List.foldl_cons, ih, get?_insert, List.reverse_cons, List.lookup_append, Option.or_assoc,
      lookup_cons_eq]
    by_cases h : k = e.1 <;> simp [h]

/-- The last pair of a key decides. -/
theorem get?_ofList (es : List (κ × α)) (k : κ) : (ofList es).get? k = es.reverse.lookup k := by
  simp [ofList, get?_foldl_insert]

theorem mem_ofList {es : List (κ × α)} {k : κ} : k ∈ ofList es ↔ k ∈ es.map Prod.fst := by
  rw [← isSome_get?, get?_ofList, lookup_isSome, List.map_reverse, List.mem_reverse]

theorem mem_of_lookup {es : List (κ × α)} {k : κ} {v : α} (h : es.lookup k = some v) :
    (k, v) ∈ es := by
  induction es with
  | nil => simp at h
  | cons e es ih =>
    rw [lookup_cons_eq] at h
    split at h
    · next hk => cases h; subst hk; exact List.mem_cons_self
    · exact List.mem_cons_of_mem _ (ih h)

theorem mem_of_get?_ofList {es : List (κ × α)} {k : κ} {v : α} (h : (ofList es).get? k = some v) :
    (k, v) ∈ es := by
  rw [get?_ofList] at h
  exact List.mem_reverse.1 (mem_of_lookup h)

/-- If no key is repeated, a table is made of just the pairs of the list. -/
theorem get?_ofList_eq_some {es : List (κ × α)} (h : (es.map Prod.fst).Nodup) {k : κ} {v : α} :
    (ofList es).get? k = some v ↔ (k, v) ∈ es := by
  have hr : (es.reverse.map Prod.fst).Nodup := (es.reverse_perm.symm.map Prod.fst).nodup h
  rw [get?_ofList, lookup_eq_some_iff hr, List.mem_reverse]

/-- If no key is repeated, the order of the list does not matter. -/
theorem get?_ofList_perm {es fs : List (κ × α)} (h : (es.map Prod.fst).Nodup) (hp : es.Perm fs)
    (k : κ) : (ofList es).get? k = (ofList fs).get? k := by
  have hf : (fs.map Prod.fst).Nodup := (hp.map Prod.fst).nodup h
  ext v
  rw [get?_ofList_eq_some h, get?_ofList_eq_some hf, hp.mem_iff]

/-- If the value of each pair is told by its key, repetitions do not matter. -/
theorem get?_ofList_map {β : Type} (l : List β) (key : β → κ) (f : κ → α) (k : κ) :
    (ofList (l.map fun b => (key b, f (key b)))).get? k =
      if k ∈ l.map key then some (f k) else none := by
  have hkeys : (l.map fun b => (key b, f (key b))).map Prod.fst = l.map key := by
    simp [List.map_map, Function.comp_def]
  split
  · next hk =>
    obtain ⟨v, hv⟩ := Option.isSome_iff_exists.1 (isSome_get?.2 (mem_ofList.2 (hkeys ▸ hk)))
    obtain ⟨b, -, hb⟩ := List.mem_map.1 (mem_of_get?_ofList hv)
    cases hb
    exact hv
  · next hk => exact get?_eq_none.2 fun hm => hk (hkeys ▸ mem_ofList.1 hm)

/-! ### Parts of a table -/

/-- The entries under the keys that `keep` picks. -/
def restrict (keep : κ → Bool) (t : Table κ α) : Table κ α :=
  ⟨t.entries.filter fun e => keep e.1, t.nodup.sublist (List.filter_sublist.map Prod.fst)⟩

theorem lookup_filter_key (keep : κ → Bool) (es : List (κ × α)) (x : κ) :
    (es.filter fun e => keep e.1).lookup x = if keep x then es.lookup x else none := by
  induction es with
  | nil => simp
  | cons e es ih =>
    by_cases he : keep e.1 = true
    · rw [List.filter_cons_of_pos (by simpa using he), lookup_cons_eq, lookup_cons_eq, ih]
      by_cases hx : x = e.1 <;> simp [hx, he]
    · rw [List.filter_cons_of_neg (by simpa using he), lookup_cons_eq, ih]
      by_cases hx : x = e.1 <;> simp [hx, he]

theorem get?_restrict (keep : κ → Bool) (t : Table κ α) (k : κ) :
    (t.restrict keep).get? k = if keep k then t.get? k else none :=
  lookup_filter_key keep t.entries k

theorem filter_insertEntry_of_pos {keep : κ → Bool} {k : κ} (hk : keep k = true) (v : α)
    (es : List (κ × α)) : (insertEntry k v es).filter (fun e => keep e.1) =
      insertEntry k v (es.filter fun e => keep e.1) := by
  induction es with
  | nil => simp [insertEntry, hk]
  | cons e es ih =>
    by_cases h : e.1 = k
    · simp [insertEntry, h, hk]
    · by_cases he : keep e.1 = true <;> simp [insertEntry, h, he, ih]

theorem filter_insertEntry_of_neg {keep : κ → Bool} {k : κ} (hk : keep k = false) (v : α)
    (es : List (κ × α)) : (insertEntry k v es).filter (fun e => keep e.1) =
      es.filter fun e => keep e.1 := by
  induction es with
  | nil => simp [insertEntry, hk]
  | cons e es ih =>
    by_cases h : e.1 = k
    · simp [insertEntry, h, hk]
    · simp only [insertEntry, h, if_false, List.filter_cons, ih]

theorem restrict_insert_of_pos {keep : κ → Bool} {k : κ} (hk : keep k = true) (t : Table κ α)
    (v : α) : (t.insert k v).restrict keep = (t.restrict keep).insert k v :=
  ext (filter_insertEntry_of_pos hk v t.entries)

theorem restrict_insert_of_neg {keep : κ → Bool} {k : κ} (hk : keep k = false) (t : Table κ α)
    (v : α) : (t.insert k v).restrict keep = t.restrict keep :=
  ext (filter_insertEntry_of_neg hk v t.entries)

/-! ### Grouping -/

/-- Each member of a list once, in order of first occurrence. -/
def distinct : List κ → List κ
  | [] => []
  | k :: ks => k :: (distinct ks).filter (· ≠ k)

theorem mem_distinct {ks : List κ} {k : κ} : k ∈ distinct ks ↔ k ∈ ks := by
  induction ks with
  | nil => simp [distinct]
  | cons x ks ih => by_cases h : k = x <;> simp [distinct, h, ih]

theorem nodup_distinct (ks : List κ) : (distinct ks).Nodup := by
  induction ks with
  | nil => simp [distinct]
  | cons x ks ih => simp [distinct, List.nodup_cons, ih.sublist List.filter_sublist]

/-- The values of each key of a list of pairs, in list order. -/
def group (es : List (κ × α)) : Table κ (List α) :=
  ⟨(distinct (es.map Prod.fst)).map fun k => (k, (es.filter fun e => e.1 = k).map Prod.snd),
    by simpa [List.map_map, Function.comp_def] using nodup_distinct (es.map Prod.fst)⟩

end Table

end Timetabling
