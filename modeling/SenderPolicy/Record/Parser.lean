import SenderPolicy.Record.Term

/-!
# Reading a record

A record is the version token and, behind a space, its terms between spaces. The terms are read
in order, and the first that cannot be read, or that repeats a modifier which may stand once,
refuses the record.

## Main definitions

* `isPolicy`: the text carries the version token
* `tokens`: the terms of a record's text
* `Record.insert`: a record with one more term
* `Record.parse`: the record of a text
* `IsSingle`: a record holds no two modifiers of a kind that may stand once

## Main results

* `text_of_parse`, `isSingle_of_parse`: what holds of every record that is read
-/

namespace SenderPolicy.Record

open Text

/-- The version token, in front of every record. -/
def version : String := "v=spf1"

/-- The text carries the version token: it ends there or goes on with a space. -/
def isPolicy (text : String) : Bool :=
  let cs := (lower text).toList
  cs = version.toList || (version.toList ++ [' ']).isPrefixOf cs

/-- The terms behind the version token. -/
def tokens (text : String) : List (List Char) :=
  (pieces (· = ' ') (text.toList.drop version.toList.length)).filter (· ≠ [])

/-- A record without terms. -/
def empty (text : String) : Record := ⟨text, [], [], []⟩

/-- The record with one more term at the end of its kind. -/
def insert (record : Record) : Term → Except Error Record
  | .directive d => .ok { record with directives := record.directives ++ [d] }
  | .modifier m =>
    if record.modifiers.any m.clashes then .error (.repeatedModifier m.name)
    else .ok { record with modifiers := record.modifiers ++ [m] }

/-- The record of a text. -/
def parse (text : String) : Except Error Record :=
  if isPolicy text then
    (tokens text).foldlM (fun record token => Term.read token >>= record.insert) (empty text)
  else .error (.notARecord text)

/-! ## Records that are read

Whatever holds of the record without terms, and is kept by every term that is read, holds of the
record. -/

theorem parse_induction {text : String} {record : Record} {P : Record → Prop}
    (h : parse text = .ok record) (start : P (empty text))
    (kept : ∀ {token term before after}, token ∈ tokens text → Term.read token = .ok term →
      P before → before.insert term = .ok after → P after) : P record := by
  have go : ∀ {read : List (List Char)} {before : Record}, (∀ token ∈ read, token ∈ tokens text) →
      P before → read.foldlM (fun record token => Term.read token >>= record.insert) before =
        .ok record → P record := by
    intro read
    induction read with
    | nil =>
      rintro before - hb ⟨⟩
      exact hb
    | cons token read ih =>
      intro before hm hb hr
      rw [List.forall_mem_cons] at hm
      rw [List.foldlM_cons] at hr
      obtain ⟨after, ha, hr⟩ := Error.bind_eq_ok_iff.mp hr
      obtain ⟨term, ht, hi⟩ := Error.bind_eq_ok_iff.mp ha
      exact ih hm.2 (kept hm.1 ht hb hi) hr
  unfold parse at h
  split at h
  · exact go (fun _ => id) start h
  · cases h

theorem text_of_insert {before after : Record} {term : Term}
    (h : before.insert term = .ok after) : after.text = before.text := by
  unfold insert at h
  split at h
  · cases h
    rfl
  · split at h
    · cases h
    · cases h
      rfl

/-- A record keeps the text it was read from. -/
theorem text_of_parse {text : String} {record : Record} (h : parse text = .ok record) :
    record.text = text :=
  parse_induction (P := fun record => record.text = text) h rfl
    fun _ _ hb hi => (text_of_insert hi).trans hb

/-- No two modifiers of a record are of one kind that may stand once. -/
def IsSingle (record : Record) : Prop :=
  record.modifiers.Pairwise fun m m' => m.clashes m' = false

theorem IsSingle.insert {before after : Record} {term : Term} (hb : before.IsSingle)
    (h : before.insert term = .ok after) : after.IsSingle := by
  unfold Record.insert at h
  split at h
  · cases h
    exact hb
  · rename_i m
    split at h
    · cases h
    · rename_i hm
      cases h
      refine List.pairwise_append.mpr ⟨hb, List.pairwise_singleton _ _, ?_⟩
      intro m' hm' m'' hm''
      rw [List.mem_singleton] at hm''
      subst hm''
      rw [Modifier.clashes_comm]
      simp only [List.any_eq_true, not_exists, not_and, Bool.not_eq_true] at hm
      exact hm m' hm'

/-- A record that is read holds at most one redirection and at most one explanation. -/
theorem isSingle_of_parse {text : String} {record : Record} (h : parse text = .ok record) :
    record.IsSingle :=
  parse_induction h List.Pairwise.nil fun _ _ hb hi => hb.insert hi

end SenderPolicy.Record
