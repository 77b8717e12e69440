/-! # Tables
Finite maps from names, in which the last write to a name wins. -/

namespace LispShell

/-- Entries with distinct keys keep them distinct when some entries are dropped. -/
theorem nodup_keys_filter {κ α : Type} {entries : List (κ × α)}
    (distinct : (entries.map (·.1)).Nodup) (kept : κ × α → Bool) :
    ((entries.filter kept).map (·.1)).Nodup :=
  List.Pairwise.sublist (List.filter_sublist.map _) distinct

/-- An entry put in place of those with its key keeps the keys distinct. -/
theorem nodup_keys_replace {κ α : Type} [BEq κ] [LawfulBEq κ] {entries : List (κ × α)}
    (distinct : (entries.map (·.1)).Nodup) (key : κ) (value : α) :
    (((key, value) :: entries.filter (·.1 != key)).map (·.1)).Nodup := by
  refine List.nodup_cons.2 ⟨?_, nodup_keys_filter distinct _⟩
  simp only [List.mem_map, List.mem_filter, bne_iff_ne, ne_eq]
  rintro ⟨entry, ⟨_, different⟩, same⟩
  exact different same

/-- A finite map from names. -/
structure Table (α : Type) where
  /-- The entries. -/
  entries : List (String × α)
  /-- No two entries have the same name. -/
  distinct : (entries.map (·.1)).Nodup
  deriving Repr

namespace Table

variable {α : Type}

/-- The table without entries. -/
def empty : Table α := ⟨[], List.nodup_nil⟩

instance : Inhabited (Table α) := ⟨empty⟩

/-- What is filed under a name. -/
def find? (table : Table α) (name : String) : Option α :=
  table.entries.lookup name

/-- Whether anything is filed under a name. -/
def contains (table : Table α) (name : String) : Bool :=
  (table.find? name).isSome

/-- The table without a name. -/
def erase (table : Table α) (name : String) : Table α :=
  ⟨table.entries.filter (·.1 != name), nodup_keys_filter table.distinct _⟩

/-- Files a value under a name, in place of what was there. -/
def insert (table : Table α) (name : String) (value : α) : Table α :=
  ⟨(name, value) :: (table.erase name).entries, nodup_keys_replace table.distinct name value⟩

/-- The table of the given entries; of two with one name the later wins. -/
def ofList (entries : List (String × α)) : Table α :=
  entries.foldl (fun table entry => table.insert entry.1 entry.2) empty

/-- The names in the order of their characters. -/
def names (table : Table α) : List String :=
  (table.entries.map (·.1)).mergeSort fun first second => decide (first ≤ second)

@[simp] theorem find?_empty (name : String) : (empty : Table α).find? name = none := rfl

theorem lookup_filter_ne {κ : Type} [BEq κ] [LawfulBEq κ] (entries : List (κ × α)) {name other : κ}
    (different : other ≠ name) :
    (entries.filter (·.1 != name)).lookup other = entries.lookup other := by
  induction entries with
  | nil => rfl
  | cons entry rest inductionHypothesis =>
    obtain ⟨key, value⟩ := entry
    by_cases sameKey : key = name
    · subst sameKey
      simpa [List.lookup_cons, beq_false_of_ne different] using inductionHypothesis
    · simp [List.lookup_cons, sameKey, inductionHypothesis]

/-- The last write to a name is what is found there; other names keep what they had. -/
theorem find?_insert (table : Table α) (name other : String) (value : α) :
    (table.insert name value).find? other =
      if other = name then some value else table.find? other := by
  by_cases sameName : other = name
  · simp [insert, find?, sameName]
  · simp [insert, find?, erase, List.lookup_cons, sameName, lookup_filter_ne _ sameName,
      beq_false_of_ne sameName]

/-- A write adds the name that is written to and no other. -/
theorem contains_insert (table : Table α) (name other : String) (value : α) :
    (table.insert name value).contains other = (other == name || table.contains other) := by
  rw [contains, contains, find?_insert]
  by_cases sameName : other = name
  · rw [if_pos sameName, sameName, beq_self_eq_true, Bool.true_or]
    rfl
  · rw [if_neg sameName, beq_false_of_ne sameName, Bool.false_or]

end Table

end LispShell
