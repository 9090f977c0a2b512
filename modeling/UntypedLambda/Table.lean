/-!
# Insertion-ordered tables

A finite map from keys to values that remembers the order in which its keys first
arrived. Overwriting a key keeps its position, removing a key forgets it, and a key
that comes back goes last. The environment of a session, the scope of a traversal and
the trace of a run are all such tables, because each of them is shown in that order.

The entries are a plain list of pairs, and that no key occurs twice is a field of the
type, so a look-up never has to say which of two entries it means.

## Main statements

* `get?_insert`, `get?_erase` : what a table holds after a change.
* `keys_insert_of_mem`, `keys_insert_of_not_mem` : an overwritten key keeps its position
  and a new one goes last.
* `mem_keys_iff` : the keys are exactly the names with a value.
* `get?_eq_some_iff` : a look-up gives the values of the entries.
* `ofList_entries` : a table is made again by storing its entries one after another.
-/

namespace UntypedLambda

namespace Entries

variable {κ ν : Type} [DecidableEq κ]

/-- The value stored under `k`, if there is one. -/
def find? (k : κ) : List (κ × ν) → Option ν
  | [] => none
  | (k', v) :: rest => if k' = k then some v else find? k rest

/-- Store `v` under `k`: in place if `k` is present, at the end if it is not. -/
def put (k : κ) (v : ν) : List (κ × ν) → List (κ × ν)
  | [] => [(k, v)]
  | (k', v') :: rest => if k' = k then (k, v) :: rest else (k', v') :: put k v rest

/-- Drop the entries stored under `k`. -/
def drop (k : κ) (es : List (κ × ν)) : List (κ × ν) :=
  es.filter fun e => e.1 ≠ k

theorem find?_put (k k' : κ) (v : ν) (es : List (κ × ν)) :
    find? k' (put k v es) = if k = k' then some v else find? k' es := by
  induction es with
  | nil => simp [put, find?]
  | cons e rest ih =>
      obtain ⟨a, w⟩ := e
      by_cases hak : a = k <;> by_cases hk : k = k' <;> simp_all [put, find?]

theorem find?_drop (k k' : κ) (es : List (κ × ν)) :
    find? k' (drop k es) = if k = k' then none else find? k' es := by
  induction es with
  | nil => simp [drop, find?]
  | cons e rest ih =>
      obtain ⟨a, w⟩ := e
      have ih' : find? k' (rest.filter fun e => decide (e.1 ≠ k)) =
          if k = k' then none else find? k' rest := ih
      by_cases hak : a = k <;> by_cases hk : k = k' <;> simp_all [drop, find?]

theorem keys_put (k : κ) (v : ν) (es : List (κ × ν)) :
    (put k v es).map Prod.fst =
      if k ∈ es.map Prod.fst then es.map Prod.fst else es.map Prod.fst ++ [k] := by
  induction es with
  | nil => simp [put]
  | cons e rest ih =>
      obtain ⟨a, w⟩ := e
      by_cases hak : a = k
      · simp [put, hak]
      · have hka : ¬ k = a := fun h => hak h.symm
        by_cases hmem : k ∈ rest.map Prod.fst
        · rw [if_pos hmem] at ih
          have hcons : k ∈ ((a, w) :: rest).map Prod.fst := List.mem_cons_of_mem _ hmem
          rw [if_pos hcons, put, if_neg hak, List.map_cons, ih, List.map_cons]
        · rw [if_neg hmem] at ih
          have hcons : ¬ k ∈ ((a, w) :: rest).map Prod.fst := by
            rw [List.map_cons, List.mem_cons]
            exact fun h => h.elim hka hmem
          rw [if_neg hcons, put, if_neg hak, List.map_cons, ih, List.map_cons, List.cons_append]

theorem put_of_not_mem {k : κ} {es : List (κ × ν)} (v : ν) (hk : k ∉ es.map Prod.fst) :
    put k v es = es ++ [(k, v)] := by
  induction es with
  | nil => rfl
  | cons e rest ih =>
      rw [List.map_cons, List.mem_cons, not_or] at hk
      rw [put, if_neg (Ne.symm hk.1), ih hk.2, List.cons_append]

theorem mem_keys_iff (k : κ) (es : List (κ × ν)) :
    k ∈ es.map Prod.fst ↔ (find? k es).isSome := by
  induction es with
  | nil => simp [find?]
  | cons e rest ih =>
      obtain ⟨a, w⟩ := e
      by_cases hak : a = k
      · simp [find?, hak]
      · have hka : ¬ k = a := fun h => hak h.symm
        rw [List.map_cons, List.mem_cons, ih, find?, if_neg hak]
        simp [hka]

/-- Where no key occurs twice, the value of a key is that of its only entry. -/
theorem find?_eq_some_iff {es : List (κ × ν)} (hdistinct : (es.map Prod.fst).Nodup)
    (k : κ) (v : ν) : find? k es = some v ↔ (k, v) ∈ es := by
  induction es with
  | nil => simp [find?]
  | cons e rest ih =>
      obtain ⟨a, w⟩ := e
      rw [List.map_cons, List.nodup_cons] at hdistinct
      obtain ⟨hfresh, hrest⟩ := hdistinct
      by_cases hak : a = k
      · have hnot : (k, v) ∉ rest := by
          intro hmem
          have hkey : k ∈ rest.map Prod.fst := List.mem_map_of_mem hmem
          rw [← hak] at hkey
          exact hfresh hkey
        simp [find?, hak, hnot, eq_comm]
      · have hka : ¬ k = a := fun h => hak h.symm
        simp [find?, hak, hka, ih hrest]

end Entries

/-- A finite map whose entries stand in the order in which their keys first arrived. -/
structure Table (κ ν : Type) where
  /-- The entries, oldest key first. -/
  entries : List (κ × ν)
  /-- No key occurs twice. -/
  distinct : (entries.map Prod.fst).Nodup

namespace Table

variable {κ ν : Type}

/-- The table without entries. -/
def empty : Table κ ν := ⟨[], by simp⟩

instance : EmptyCollection (Table κ ν) := ⟨empty⟩

instance : Inhabited (Table κ ν) := ⟨empty⟩

/-- The keys, oldest first. -/
def keys (t : Table κ ν) : List κ := t.entries.map Prod.fst

/-- The number of entries. -/
def size (t : Table κ ν) : Nat := t.entries.length

/-- Whether the table has no entry. -/
def isEmpty (t : Table κ ν) : Bool := t.entries.isEmpty

/-- Replace every value, keeping keys and order. -/
def mapValues {μ : Type} (f : ν → μ) (t : Table κ ν) : Table κ μ :=
  ⟨t.entries.map fun e => (e.1, f e.2), by
    rw [List.map_map]
    exact t.distinct⟩

variable [DecidableEq κ]

/-- The value stored under `k`, if there is one. -/
def get? (t : Table κ ν) (k : κ) : Option ν := Entries.find? k t.entries

/-- Store `v` under `k`, in place if `k` is present and at the end if it is not. -/
def insert (t : Table κ ν) (k : κ) (v : ν) : Table κ ν :=
  ⟨Entries.put k v t.entries, by
    rw [Entries.keys_put]
    split
    · exact t.distinct
    · next hmem =>
        rw [List.nodup_append]
        refine ⟨t.distinct, by simp, ?_⟩
        intro a ha b hb hab
        rw [List.mem_singleton] at hb
        exact hmem (hb ▸ hab ▸ ha)⟩

/-- Forget `k`. -/
def erase (t : Table κ ν) (k : κ) : Table κ ν :=
  ⟨Entries.drop k t.entries,
    List.Nodup.sublist (List.filter_sublist.map Prod.fst) t.distinct⟩

/-- Store the given pairs one after another, so that of two values for one key the later
one stays. -/
def ofList (pairs : List (κ × ν)) : Table κ ν :=
  pairs.foldl (fun t e => t.insert e.1 e.2) empty

@[simp] theorem get?_empty (k : κ) : (∅ : Table κ ν).get? k = none := rfl

theorem get?_of_isEmpty {t : Table κ ν} (hempty : t.isEmpty = true) (k : κ) :
    t.get? k = none := by
  have hentries : t.entries = [] := List.isEmpty_iff.1 hempty
  rw [get?, hentries]
  rfl

/-- After a store the key has the new value and every other key what it had. -/
theorem get?_insert (t : Table κ ν) (k k' : κ) (v : ν) :
    (t.insert k v).get? k' = if k = k' then some v else t.get? k' :=
  Entries.find?_put k k' v t.entries

/-- After a removal the key has no value and every other key what it had. -/
theorem get?_erase (t : Table κ ν) (k k' : κ) :
    (t.erase k).get? k' = if k = k' then none else t.get? k' :=
  Entries.find?_drop k k' t.entries

/-- A key has a value exactly if there is an entry of the two. -/
theorem get?_eq_some_iff (t : Table κ ν) (k : κ) (v : ν) :
    t.get? k = some v ↔ (k, v) ∈ t.entries :=
  Entries.find?_eq_some_iff t.distinct k v

/-- The keys are exactly the names with a value. -/
theorem mem_keys_iff (t : Table κ ν) (k : κ) : k ∈ t.keys ↔ (t.get? k).isSome :=
  Entries.mem_keys_iff k t.entries

/-- Overwriting a key leaves the order of keys as it was. -/
theorem keys_insert_of_mem (t : Table κ ν) {k : κ} (v : ν) (hk : k ∈ t.keys) :
    (t.insert k v).keys = t.keys :=
  (Entries.keys_put k v t.entries).trans (if_pos hk)

/-- A new key goes last. -/
theorem keys_insert_of_not_mem (t : Table κ ν) {k : κ} (v : ν) (hk : k ∉ t.keys) :
    (t.insert k v).keys = t.keys ++ [k] :=
  (Entries.keys_put k v t.entries).trans (if_neg hk)

/-- Pairs without a repeated key are stored as they stand. -/
theorem entries_foldl_insert {t : Table κ ν} {pairs : List (κ × ν)}
    (h : ((t.entries ++ pairs).map Prod.fst).Nodup) :
    (pairs.foldl (fun t e => t.insert e.1 e.2) t).entries = t.entries ++ pairs := by
  induction pairs generalizing t with
  | nil => simp
  | cons e rest ih =>
      have hfresh : e.1 ∉ t.entries.map Prod.fst := by
        rw [List.map_append, List.map_cons, List.nodup_append] at h
        intro hmem
        exact h.2.2 _ hmem _ List.mem_cons_self rfl
      have hstored : (t.insert e.1 e.2).entries = t.entries ++ [e] :=
        Entries.put_of_not_mem e.2 hfresh
      have hsplit : t.entries ++ e :: rest = (t.insert e.1 e.2).entries ++ rest := by
        rw [hstored, List.append_assoc]
        rfl
      rw [hsplit] at h
      rw [List.foldl_cons, ih h, hsplit]

/-- A table is what its entries make when they are stored one after another. -/
theorem ofList_entries (t : Table κ ν) : ofList t.entries = t := by
  have hentries : (ofList t.entries).entries = t.entries :=
    entries_foldl_insert (t := empty) t.distinct
  obtain ⟨entries, hdistinct⟩ := t
  cases htable : ofList entries with
  | mk entries' hdistinct' =>
      rw [htable] at hentries
      cases hentries
      rfl

end Table

end UntypedLambda
