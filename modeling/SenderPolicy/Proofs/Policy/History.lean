import Mathlib.Data.List.Induction
import SenderPolicy.Policy.Table
import SenderPolicy.Proofs.Text.Tails

/-!
# Tables and their histories

A table is what its changes have left of it. Under each key there is the record that was added last
and that no later change has touched; everything that a table answers can be told from these records
alone. Exact entries and wildcards share the keys, and several wildcards may lie above a name: since
all of them end the same name, the longest is one.

## Main definitions

* `Change`, `Table.ofHistory`: the changes of a table, and the table that they lead to
* `Survives`: a record was added under a key, and no later change has touched the key
* `Table.Covers`: a key is a wildcard above a name
* `Table.scan`: the record of a name by going through the entries one by one, in any order
* `Table.Reflects`: a table answers as its history says

## Main results

* `lookup_eq_some_iff`: the record of a name is its own, else that of the longest wildcard
* `scan_eq_lookup`: the entries may be gone through in any order
* `get?_ofHistory`: a key has the record that survives under it
* `lookup_remove_wildcard`: a wildcard counts for the names below its domain only
* `reflects_ofHistory`: every table reflects its history
-/

namespace SenderPolicy.Policy

open Text

namespace Table

variable {table table' : Table} {key : String} {record : Record}

/-! ## Entries -/

/-- Under distinct keys, what is found is what is listed. -/
theorem lookup_eq_some_iff_mem {listing : List (String × Record)}
    (distinct : (listing.map Prod.fst).Nodup) :
    listing.lookup key = some record ↔ (key, record) ∈ listing := by
  induction listing with
  | nil => simp
  | cons entry listing ih =>
    obtain ⟨k, held⟩ := entry
    rw [List.map_cons, List.nodup_cons] at distinct
    by_cases hk : key = k
    · subst hk
      have absent : (key, record) ∉ listing := fun hm =>
        distinct.1 (List.mem_map.mpr ⟨_, hm, rfl⟩)
      simp [absent, eq_comm]
    · have hne : (key == k) = false := by simp [hk]
      rw [List.lookup_cons, hne, ih distinct.2]
      simp [hk]

theorem get?_eq_some_iff : table.get? key = some record ↔ (key, record) ∈ table.entries :=
  lookup_eq_some_iff_mem table.distinct

theorem mem_keys_iff : key ∈ table.entries.map Prod.fst ↔ ∃ record, table.get? key = some record := by
  simp [get?_eq_some_iff]

/-- Tables that hold the same records are of one size. -/
theorem size_congr (same : ∀ key, table.get? key = table'.get? key) : table.size = table'.size := by
  have keys : (table.entries.map Prod.fst).Perm (table'.entries.map Prod.fst) := by
    rw [List.perm_ext_iff_of_nodup table.distinct table'.distinct]
    intro key
    rw [mem_keys_iff, mem_keys_iff, same]
  simpa [size] using keys.length_eq

/-! ## Wildcards -/

/-- The key is one of a wildcard above the name: it starts with a dot and ends the name. -/
def Covers (key : String) (name : List Char) : Prop :=
  key.toList.head? = some '.' ∧ key.toList <:+ name

instance (key : String) (name : List Char) : Decidable (Covers key name) :=
  inferInstanceAs (Decidable (_ ∧ _))

/-- The longest wildcard above a name has a record, and it is the one. -/
theorem wildcard_eq_some_iff {cs : List Char} : table.wildcard cs = some record ↔
    ∃ key, Covers key cs ∧ table.get? key = some record ∧
      ∀ other, Covers other cs → (table.get? other).isSome → other.toList <:+ key.toList := by
  induction cs with
  | nil =>
    constructor
    · rintro ⟨⟩
    · rintro ⟨key, ⟨hd, hs⟩, -⟩
      rw [List.suffix_nil.mp hs] at hd
      cases hd
  | cons c cs ih =>
    have longer {other : String} (h : Covers other cs) : Covers other (c :: cs) :=
      ⟨h.1, h.2.trans (List.suffix_cons c cs)⟩
    rw [wildcard]
    split
    · -- the name itself is a wildcard of the table, and no other is as long
      rename_i found hf
      have dot : c = '.' := by
        by_contra hc
        simp [hc] at hf
      rw [if_pos dot] at hf
      constructor
      · rintro ⟨⟩
        refine ⟨String.ofList (c :: cs), ⟨by simp [dot], by simp⟩, hf, fun other ho _ => ?_⟩
        simpa using ho.2
      · rintro ⟨key, covers, hr, longest⟩
        have whole := longest (String.ofList (c :: cs)) ⟨by simp [dot], by simp⟩
          (Option.isSome_of_eq_some hf)
        rw [String.toList_ofList] at whole
        have same : key = String.ofList (c :: cs) := by
          rw [← String.toList_inj, String.toList_ofList]
          exact covers.2.eq_of_length_le whole.length_le
        rw [← hf, ← same, hr]
    · rename_i hn
      -- the name itself is none, so the wildcards of the table lie above the rest
      have shorter {other : String} (h : Covers other (c :: cs)) (hs : (table.get? other).isSome) :
          Covers other cs := by
        refine ⟨h.1, (List.suffix_cons_iff.mp h.2).resolve_left fun he => ?_⟩
        have hd := h.1
        rw [he, List.head?_cons, Option.some.injEq] at hd
        rw [if_pos hd, ← he, String.ofList_toList] at hn
        simp [hn] at hs
      rw [ih]
      constructor
      · rintro ⟨key, covers, hr, longest⟩
        exact ⟨key, longer covers, hr, fun other ho hs => longest other (shorter ho hs) hs⟩
      · rintro ⟨key, covers, hr, longest⟩
        exact ⟨key, shorter covers (by simp [hr]), hr, fun other ho => longest other (longer ho)⟩

/-- The record of a name is its own, else that of the longest wildcard above it. -/
theorem lookup_eq_some_iff {domain : String} : table.lookup domain = some record ↔
    table.get? (Domain.folded domain) = some record ∨
      table.get? (Domain.folded domain) = none ∧
        ∃ key, Covers key (Domain.folded domain).toList ∧ table.get? key = some record ∧
          ∀ other, Covers other (Domain.folded domain).toList → (table.get? other).isSome →
            other.toList <:+ key.toList := by
  rw [← wildcard_eq_some_iff, lookup]
  cases table.get? (Domain.folded domain) <;> simp

/-- Only the records under the name and under the wildcards above it count. -/
theorem lookup_congr_of {domain : String}
    (same : ∀ key, key = Domain.folded domain ∨ Covers key (Domain.folded domain).toList →
      table.get? key = table'.get? key) : table.lookup domain = table'.lookup domain := by
  have own := same _ (.inl rfl)
  refine Option.ext fun record => ?_
  rw [lookup_eq_some_iff, lookup_eq_some_iff, own]
  refine or_congr_right (and_congr_right fun _ => exists_congr fun key =>
    and_congr_right fun covers => ?_)
  rw [same key (.inr covers)]
  refine and_congr_right fun _ => forall_congr' fun other => forall_congr' fun ho => ?_
  rw [same other (.inr ho)]

/-! ## Entries in any order

A table may list its entries in any order. The wildcards above a name all end it, so those of equal
length are equal, and it does not matter which of them is met first. -/

/-- The entry with the longest key; of equally long ones the last. -/
def longest : List (String × Record) → Option (String × Record)
  | [] => none
  | entry :: rest =>
    match longest rest with
    | none => some entry
    | some best => if octets entry.1.toList ≤ octets best.1.toList then some best else some entry

/-- The record of a name by going through a list of entries: the exact one, else the longest of
those that are wildcards above the name. -/
def scan (listing : List (String × Record)) (name : String) : Option Record :=
  match listing.lookup name with
  | some record => some record
  | none => (longest (listing.filter fun entry => Covers entry.1 name.toList)).map Prod.snd

theorem longest_eq_none_iff {listing : List (String × Record)} :
    longest listing = none ↔ listing = [] := by
  cases listing with
  | nil => simp [longest]
  | cons entry rest =>
    unfold longest
    split
    · simp
    · split <;> simp

theorem mem_of_longest {listing : List (String × Record)} {entry : String × Record}
    (h : longest listing = some entry) :
    entry ∈ listing ∧ ∀ other ∈ listing, octets other.1.toList ≤ octets entry.1.toList := by
  induction listing generalizing entry with
  | nil => cases h
  | cons first rest ih =>
    unfold longest at h
    split at h
    · rename_i hn
      cases h
      rw [longest_eq_none_iff.mp hn]
      simp
    · rename_i best hb
      obtain ⟨hm, hle⟩ := ih hb
      split at h
      · rename_i shorter
        cases h
        exact ⟨List.mem_cons_of_mem _ hm, List.forall_mem_cons.mpr ⟨shorter, hle⟩⟩
      · rename_i longer
        cases h
        exact ⟨List.mem_cons_self, List.forall_mem_cons.mpr ⟨Nat.le_refl _, fun other ho =>
          Nat.le_trans (hle other ho) (Nat.le_of_not_le longer)⟩⟩

/-- Entries may be gone through in any order. -/
theorem scan_eq_lookup {listing : List (String × Record)} (h : listing.Perm table.entries)
    (domain : String) : scan listing (Domain.folded domain) = table.lookup domain := by
  have distinct : (listing.map Prod.fst).Nodup := (h.map Prod.fst).nodup_iff.mpr table.distinct
  have held (key : String) (record : Record) : (key, record) ∈ listing ↔
      table.get? key = some record := by
    rw [h.mem_iff, get?_eq_some_iff]
  have same : listing.lookup (Domain.folded domain) = table.get? (Domain.folded domain) :=
    Option.ext fun record => by rw [lookup_eq_some_iff_mem distinct, held]
  unfold scan lookup
  rw [same]
  cases table.get? (Domain.folded domain) with
  | some record => rfl
  | none =>
    dsimp only
    generalize (Domain.folded domain).toList = name
    cases hl : longest (listing.filter fun entry => Covers entry.1 name) with
    | none =>
      -- no entry is a wildcard above the name
      have none := longest_eq_none_iff.mp hl
      rw [List.filter_eq_nil_iff] at none
      symm
      rw [Option.map_none, Option.eq_none_iff_forall_ne_some]
      intro record hr
      obtain ⟨key, covers, hk, -⟩ := wildcard_eq_some_iff.mp hr
      exact none _ ((held key record).mpr hk) (decide_eq_true covers)
    | some entry =>
      obtain ⟨hm, hle⟩ := mem_of_longest hl
      rw [List.mem_filter, decide_eq_true_iff] at hm
      symm
      rw [Option.map_some, wildcard_eq_some_iff]
      refine ⟨entry.1, hm.2, (held _ _).mp hm.1, fun other ho hs => ?_⟩
      obtain ⟨record, hr⟩ := Option.isSome_iff_exists.mp hs
      refine suffix_of_octets_le ho.2 hm.2.2 (hle (other, record) ?_)
      exact List.mem_filter.mpr ⟨(held _ _).mpr hr, decide_eq_true ho⟩

end Table

/-! ## Histories -/

/-- A change of a table. -/
inductive Change where
  | add (host text : String)
  | remove (host : String)
  | clear
deriving DecidableEq, Repr

namespace Change

/-- The table behind a change; a text that is no record changes nothing. -/
def apply (table : Table) : Change → Table
  | add host text =>
    match table.add host text with
    | .ok added => added
    | .error _ => table
  | remove host => table.remove host
  | clear => .empty

/-- The change puts the record under the key. -/
def Adds (key : String) (record : Record) : Change → Prop
  | add host text => Table.key host = key ∧ Record.parse text = .ok record
  | _ => False

/-- The change decides what is under the key, whatever was there before. -/
def Settles (key : String) : Change → Prop
  | add host text => Table.key host = key ∧ ∃ record, Record.parse text = .ok record
  | remove host => Table.key host = key
  | clear => True

/-- The change is one of the key, or of all keys. -/
def Concerns (key : String) : Change → Bool
  | add host _ | remove host => Table.key host = key
  | clear => true

variable {change : Change} {key : String} {record : Record}

theorem Adds.settles (h : change.Adds key record) : change.Settles key := by
  cases change with
  | add host text => exact ⟨h.1, record, h.2⟩
  | remove host => exact h.elim
  | clear => exact True.intro

theorem Settles.concerns (h : change.Settles key) : change.Concerns key = true := by
  cases change with
  | add host text =>
    rw [Concerns, decide_eq_true_iff]
    exact h.1
  | remove host =>
    rw [Concerns, decide_eq_true_iff]
    exact h
  | clear => rfl

end Change

/-- The record was added under the key, and no later change has touched the key. -/
def Survives (history : List Change) (key : String) (record : Record) : Prop :=
  ∃ before added after, history = before ++ added :: after ∧ added.Adds key record ∧
    ∀ change ∈ after, ¬ change.Settles key

section Survivors

variable {history : List Change} {change : Change} {key : String} {record : Record}

theorem not_survives_nil : ¬ Survives [] key record := by
  rintro ⟨before, added, after, h, -⟩
  simp at h

/-- The last change has added the record, or has left it alone. -/
theorem survives_concat : Survives (history ++ [change]) key record ↔
    change.Adds key record ∨ ¬ change.Settles key ∧ Survives history key record := by
  constructor
  · rintro ⟨before, added, after, h, hadds, hlater⟩
    obtain rfl | ⟨after, last, rfl⟩ := List.eq_nil_or_concat after
    · obtain ⟨rfl, hl⟩ := List.append_inj' h rfl
      cases hl
      exact .inl hadds
    · rw [List.concat_eq_append] at h hlater
      rw [← List.cons_append, ← List.append_assoc] at h
      obtain ⟨rfl, hl⟩ := List.append_inj' h rfl
      cases hl
      rw [List.forall_mem_append] at hlater
      exact .inr ⟨hlater.2 _ List.mem_cons_self, before, added, after, rfl, hadds, hlater.1⟩
  · rintro (hadds | ⟨untouched, before, added, after, rfl, hadds, hlater⟩)
    · exact ⟨history, change, [], rfl, hadds, nofun⟩
    · refine ⟨before, added, after ++ [change], by simp, hadds, ?_⟩
      rw [List.forall_mem_append, List.forall_mem_singleton]
      exact ⟨hlater, untouched⟩

/-- What is under a key is a matter of the changes that concern it. -/
theorem survives_filter :
    Survives (history.filter (Change.Concerns key)) key record ↔ Survives history key record := by
  induction history using List.reverseRecOn with
  | nil => rfl
  | append_singleton history change ih =>
    rw [List.filter_append, survives_concat]
    cases hc : change.Concerns key with
    | true => rw [List.filter_cons_of_pos hc, List.filter_nil, survives_concat, ih]
    | false =>
      have untouched : ¬ change.Settles key := fun h => by
        rw [h.concerns] at hc
        cases hc
      have unadded : ¬ change.Adds key record := fun h => untouched h.settles
      rw [List.filter_cons_of_neg (by simp [hc]), List.filter_nil, List.append_nil, ih]
      simp [untouched, unadded]

end Survivors

namespace Table

variable {table : Table} {history : List Change} {change : Change} {host text key : String}
  {record : Record}

/-! ### Tables behind their changes -/

theorem add_of_parse (h : Record.parse text = .ok record) :
    table.add host text =
      .ok (table.insert (Table.key host) record (by rw [Record.text_of_parse h, h])) := by
  unfold add
  split
  · rename_i read hr
    obtain rfl : read = record := by simpa [h] using hr.symm
    rfl
  · rename_i cause hr
    simp [h] at hr

theorem add_of_error {cause : Error} (h : Record.parse text = .error cause) :
    table.add host text = .error cause := by
  unfold add
  split
  · rename_i read hr
    simp [h] at hr
  · rename_i found hr
    obtain rfl : found = cause := by simpa [h] using hr.symm
    rfl

/-- What is under a key behind a change: what the change has added, or what was there before. -/
theorem get?_apply : (change.apply table).get? key = some record ↔
    change.Adds key record ∨ ¬ change.Settles key ∧ table.get? key = some record := by
  cases change with
  | add host text =>
    cases h : Record.parse text with
    | ok read =>
      simp only [Change.apply, add_of_parse h, get?_insert, Change.Adds, Change.Settles, h]
      by_cases hk : key = Table.key host
      · simp [hk]
      · simp [hk, Ne.symm hk]
    | error cause => simp [Change.apply, add_of_error h, Change.Adds, Change.Settles, h]
  | remove host =>
    simp only [Change.apply, remove, get?_erase, Change.Adds, Change.Settles, false_or]
    by_cases hk : key = Table.key host
    · simp [hk]
    · simp [hk, Ne.symm hk]
  | clear => simp [Change.apply, Change.Adds, Change.Settles, get?, empty]

/-- The table that the changes lead to, from an empty one. -/
def ofHistory (history : List Change) : Table :=
  history.foldl Change.apply .empty

theorem ofHistory_concat :
    ofHistory (history ++ [change]) = change.apply (ofHistory history) := by
  simp [ofHistory]

/-- Under a key there is the record that survives under it. -/
theorem get?_ofHistory :
    (ofHistory history).get? key = some record ↔ Survives history key record := by
  induction history using List.reverseRecOn with
  | nil => simp [ofHistory, empty, get?, not_survives_nil]
  | append_singleton history change ih =>
    rw [ofHistory_concat, get?_apply, survives_concat, ih]

/-- Nothing is under a key under which no record survives. -/
theorem get?_ofHistory_eq_none :
    (ofHistory history).get? key = none ↔ ∀ record, ¬ Survives history key record := by
  rw [Option.eq_none_iff_forall_ne_some]
  exact forall_congr' fun record => not_congr get?_ofHistory

/-- Histories with the same changes of each key, in the same order, leave the same records. -/
theorem get?_ofHistory_congr {other : List Change}
    (same : history.filter (Change.Concerns key) = other.filter (Change.Concerns key)) :
    (ofHistory history).get? key = (ofHistory other).get? key := by
  refine Option.ext fun record => ?_
  rw [get?_ofHistory, get?_ofHistory, ← survives_filter, same, survives_filter]

/-! ### Wildcards and the names beside them -/

/-- The entry of a wildcard counts for the names below its domain only: not for the domain, and not
for a name that merely ends with the same letters. A star with only dots behind it is no wildcard;
it is kept as the entry of the empty name. -/
theorem lookup_remove_wildcard {below domain : String}
    (wild : lower (trimDots (trim host)) = "*." ++ below)
    (outside : Domain.folded domain = below ∨
      ¬ '.' :: below.toList <:+ (Domain.folded domain).toList) :
    (table.remove host).lookup domain = table.lookup domain := by
  have form : (lower (trimDots (trim host))).toList = '*' :: '.' :: below.toList := by
    rw [wild, String.toList_append]
    rfl
  have hkey : (Table.key host).toList = '.' :: below.toList := by
    unfold Table.key
    rw [form]
    exact String.toList_ofList
  have above : ¬ '.' :: below.toList <:+ (Domain.folded domain).toList := by
    obtain h | h := outside
    · intro hs
      rw [h] at hs
      have := hs.length_le
      rw [List.length_cons] at this
      omega
    · exact h
  refine lookup_congr_of fun key hk => ?_
  have hne : key ≠ Table.key host := by
    intro he
    rw [← hkey, ← he] at above
    obtain own | covers := hk
    · rw [own] at above
      exact above (List.suffix_refl _)
    · exact above covers.2
  rw [remove, get?_erase, if_neg hne]

/-! ### What a table tells of its history -/

/-- The table answers as the history says. -/
structure Reflects (table : Table) (history : List Change) : Prop where
  /-- A name has the record that survives under it, else the one under the longest wildcard. -/
  lookup_eq : ∀ domain record, table.lookup domain = some record ↔
    Survives history (Domain.folded domain) record ∨
      (∀ own, ¬ Survives history (Domain.folded domain) own) ∧
        ∃ key, Covers key (Domain.folded domain).toList ∧ Survives history key record ∧
          ∀ other held, Covers other (Domain.folded domain).toList → Survives history other held →
            octets other.toList ≤ octets key.toList
  /-- The entries give the same record in any order. -/
  scan_eq : ∀ listing, listing.Perm table.entries → ∀ domain,
    scan listing (Domain.folded domain) = table.lookup domain
  /-- The entry of a wildcard `*.below` counts neither for `below` nor for a name that does not end
  in it behind a dot. -/
  wildcard_apart : ∀ host below domain, lower (trimDots (trim host)) = "*." ++ below →
    (Domain.folded domain = below ∨ ¬ '.' :: below.toList <:+ (Domain.folded domain).toList) →
    (table.remove host).lookup domain = table.lookup domain
  /-- A text is refused if it is no record, and the table stays as it was. -/
  refused : ∀ host text cause, table.add host text = .error cause ↔
    Record.parse text = .error cause ∧ (Change.add host text).apply table = table
  /-- A host has an entry to remove if a record survives under its key. -/
  contains_iff : ∀ host, table.contains host = true ↔
    ∃ record, Survives history (Table.key host) record
  /-- The size counts the keys under which a record survives. -/
  size_eq : ∃ keys : List String, keys.Nodup ∧
    (∀ key, key ∈ keys ↔ ∃ record, Survives history key record) ∧ table.size = keys.length

theorem lookup_ofHistory {domain : String} : (ofHistory history).lookup domain = some record ↔
    Survives history (Domain.folded domain) record ∨
      (∀ own, ¬ Survives history (Domain.folded domain) own) ∧
        ∃ key, Covers key (Domain.folded domain).toList ∧ Survives history key record ∧
          ∀ other held, Covers other (Domain.folded domain).toList → Survives history other held →
            octets other.toList ≤ octets key.toList := by
  rw [lookup_eq_some_iff, get?_ofHistory, get?_ofHistory_eq_none]
  refine or_congr_right (and_congr_right fun _ => exists_congr fun key =>
    and_congr_right fun covers => ?_)
  rw [get?_ofHistory]
  refine and_congr_right fun _ => ⟨fun longest other held ho hs => ?_, fun longest other ho hs => ?_⟩
  · exact octets_le_of_suffix (longest other ho (Option.isSome_of_eq_some (get?_ofHistory.mpr hs)))
  · obtain ⟨held, hh⟩ := Option.isSome_iff_exists.mp hs
    exact suffix_of_octets_le ho.2 covers.2 (longest other held ho (get?_ofHistory.mp hh))

theorem add_eq_error_iff {cause : Error} : table.add host text = .error cause ↔
    Record.parse text = .error cause ∧ (Change.add host text).apply table = table := by
  cases h : Record.parse text with
  | ok read => simp [add_of_parse h]
  | error found => simp [add_of_error h, Change.apply]

/-- A table reflects the changes that led to it, and of these only their order under each key. -/
theorem reflects_ofHistory (history : List Change) : (ofHistory history).Reflects history ∧
    ∀ other : List Change,
      (∀ key, history.filter (Change.Concerns key) = other.filter (Change.Concerns key)) →
      (∀ domain, (ofHistory history).lookup domain = (ofHistory other).lookup domain) ∧
        (ofHistory history).size = (ofHistory other).size := by
  constructor
  · constructor
    · exact fun domain record => lookup_ofHistory
    · exact fun listing h domain => scan_eq_lookup h domain
    · exact fun host below domain => lookup_remove_wildcard
    · exact fun host text cause => add_eq_error_iff
    · intro host
      rw [contains, Option.isSome_iff_exists]
      exact exists_congr fun record => get?_ofHistory
    · refine ⟨(ofHistory history).entries.map Prod.fst, (ofHistory history).distinct, ?_, ?_⟩
      · intro key
        rw [mem_keys_iff]
        exact exists_congr fun record => get?_ofHistory
      · rw [List.length_map, size]
  · intro other same
    have held (key : String) := get?_ofHistory_congr (same key)
    exact ⟨fun domain => lookup_congr_of fun key _ => held key, size_congr held⟩

end Table

end SenderPolicy.Policy
