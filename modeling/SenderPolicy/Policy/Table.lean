import SenderPolicy.Domain
import SenderPolicy.Record.Parser

/-!
# Tables of local records

A table holds records for hosts, and for everything below a domain by wildcard entries `*.domain`.
The exact entry of a name wins; among wildcards the longest does.

## Main definitions

* `Table`: records under distinct keys
* `Table.key`: the key of a host: a wildcard entry is kept under its suffix with the leading dot
* `Table.empty`, `Table.add`, `Table.remove`: a table without entries, and the changes of a table
* `Table.lookup`: the record of a domain

## Main results

* `get?_insert`, `get?_erase`: what a change does to the entries
* `parse_of_lookup`: the record of a domain was read from its text
-/

namespace SenderPolicy.Policy

open Text

/-- Records that were read, under distinct keys. -/
structure Table where
  entries : List (String × Record)
  distinct : (entries.map Prod.fst).Nodup
  /-- No record is held that was not read from its text. -/
  read : ∀ entry ∈ entries, Record.parse entry.2.text = .ok entry.2

namespace Table

/-- The key of a host: lower case, without white space at its ends and dots behind; without the
star of a wildcard, whose dot is kept. -/
def key (host : String) : String :=
  match (lower (trimDots (trim host))).toList with
  | '*' :: suffix => String.ofList suffix
  | cs => String.ofList cs

/-- The table without entries. -/
def empty : Table := ⟨[], List.nodup_nil, by simp⟩

/-- The number of entries. -/
def size (table : Table) : Nat := table.entries.length

/-- The record under a key. -/
def get? (table : Table) (key : String) : Option Record :=
  table.entries.lookup key

/-- The table without an entry under the key. -/
def erase (table : Table) (key : String) : Table where
  entries := table.entries.filter fun entry => entry.1 ≠ key
  distinct := table.distinct.sublist (List.filter_sublist.map Prod.fst)
  read := fun entry h => table.read entry (List.mem_filter.mp h).1

/-- The table with a record that was read under the key. -/
def insert (table : Table) (key : String) (record : Record)
    (h : Record.parse record.text = .ok record) : Table where
  entries := (key, record) :: (table.erase key).entries
  distinct := by
    rw [List.map_cons, List.nodup_cons]
    refine ⟨?_, (table.erase key).distinct⟩
    simp [erase]
  read := List.forall_mem_cons.mpr ⟨h, (table.erase key).read⟩

/-- What a text adds under a host; a text that is no record adds nothing. -/
def add (table : Table) (host text : String) : Except Error Table :=
  match h : Record.parse text with
  | .ok record => .ok (table.insert (key host) record (by rw [Record.text_of_parse h, h]))
  | .error cause => .error cause

/-- The table without the entry of a host. -/
def remove (table : Table) (host : String) : Table :=
  table.erase (key host)

/-- The host has an entry. -/
def contains (table : Table) (host : String) : Bool :=
  (table.get? (key host)).isSome

/-- The record under the longest end of a name that starts with a dot and is a key. -/
def wildcard (table : Table) : List Char → Option Record
  | [] => none
  | c :: cs =>
    match if c = '.' then table.get? (String.ofList (c :: cs)) else none with
    | some record => some record
    | none => table.wildcard cs

/-- The record of a domain: of its own entry, else of the longest wildcard above it. -/
def lookup (table : Table) (domain : String) : Option Record :=
  match table.get? (Domain.folded domain) with
  | some record => some record
  | none => table.wildcard (Domain.folded domain).toList

/-! ## Changes and entries

A change reaches the record of its own key and no other, whatever the order of the entries. -/

theorem lookup_filter_ne {key other : String} (entries : List (String × Record)) :
    (entries.filter fun entry => decide (entry.1 ≠ key)).lookup other =
      if other = key then none else entries.lookup other := by
  induction entries with
  | nil => simp
  | cons entry entries ih =>
    obtain ⟨k, r⟩ := entry
    by_cases hk : k = key
    · subst hk
      by_cases ho : other = k
      · simpa [ho] using ih
      · have hne : (other == k) = false := by simp [ho]
        simpa [ho, List.lookup_cons, hne] using ih
    · by_cases hok : other = k
      · simp [hok, hk]
      · have hne : (other == k) = false := by simp [hok]
        simpa [hk, List.lookup_cons, hne] using ih

/-- An erased key has no record; the others keep theirs. -/
theorem get?_erase (table : Table) (key other : String) :
    (table.erase key).get? other = if other = key then none else table.get? other :=
  lookup_filter_ne table.entries

/-- An inserted key has its record; the others keep theirs. -/
theorem get?_insert (table : Table) (key other : String) {record : Record}
    (read : Record.parse record.text = .ok record) :
    (table.insert key record read).get? other =
      if other = key then some record else table.get? other := by
  by_cases h : other = key
  · simp [get?, insert, h]
  · have hne : (other == key) = false := by simp [h]
    have := get?_erase table key other
    simp only [get?, h, if_false] at this
    simp [get?, insert, List.lookup_cons, hne, this, h]

/-! ## Records of domains -/

theorem parse_of_get? {table : Table} {key : String} {record : Record}
    (h : table.get? key = some record) : Record.parse record.text = .ok record := by
  obtain ⟨front, back, he, -⟩ := List.lookup_eq_some_iff.mp h
  have hm : (key, record) ∈ table.entries := he ▸ List.mem_append_right front List.mem_cons_self
  exact table.read (key, record) hm

theorem parse_of_wildcard {table : Table} {cs : List Char} {record : Record}
    (h : table.wildcard cs = some record) : Record.parse record.text = .ok record := by
  induction cs with
  | nil => cases h
  | cons c cs ih =>
    unfold wildcard at h
    split at h
    · rename_i found hf
      cases h
      split at hf
      · exact parse_of_get? hf
      · cases hf
    · exact ih h

/-- The record of a domain was read from its text. -/
theorem parse_of_lookup {table : Table} {domain : String} {record : Record}
    (h : table.lookup domain = some record) : Record.parse record.text = .ok record := by
  unfold lookup at h
  split at h
  · rename_i found hf
    cases h
    exact parse_of_get? hf
  · exact parse_of_wildcard h

end Table

end SenderPolicy.Policy
