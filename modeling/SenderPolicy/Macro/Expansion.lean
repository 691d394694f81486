import SenderPolicy.Domain
import SenderPolicy.Macro.Transform
import SenderPolicy.Text.Utf8

/-!
# Expanding templates

A template is expanded element by element from left to right. The first element that has no value
decides: it refuses the template, or asks for the client's validated name, which takes lookups to
find out. Values are inserted as they are and never read as templates.

## Main definitions

* `Values`: the values that cells refer to
* `Site`: a domain, or an explanation, which may refer to three values more
* `Obstacle`: why an element has no value
* `expand`: the expansion of a template
* `fallbackReceivingDomain`: the receiver's name when none is given

## Main results

* `mapM_eq_error_iff`: what a list fails on
* `exists_of_expand_error`: a template fails on one of its elements
* `expand_eq_unknown`, `expand_refused`: why a template has no expansion
* `expand_plain`: a template without percent signs stands for itself
-/

namespace SenderPolicy.Macro

open Text

/-- The values that cells refer to, each with its letter. -/
structure Values where
  /-- `i`: the client's address in the labels that stand for it inside names. -/
  address : String
  /-- `s`: the sender. -/
  sender : String
  /-- `l`: the sender's local part. -/
  localPart : String
  /-- `o`: the sender's domain. -/
  senderDomain : String
  /-- `h`: the name that the client gives itself. -/
  helo : String
  /-- `d`: the domain whose policy is evaluated. -/
  domain : String
  /-- `v`: the label of the address family. -/
  family : String
  /-- `c`: the client's address as it is usually written. -/
  readableAddress : String
  /-- `p`: the client's validated name, once known. -/
  clientDomain : Option String
  /-- `r`: the receiver's name, if given. -/
  receivingDomain : Option String
  /-- `t`: the seconds since the epoch. -/
  timestamp : Int
deriving DecidableEq, Repr

/-- Where a template stands. -/
inductive Site where
  /-- A domain, shortened until it fits into a lookup. -/
  | domain
  /-- An explanation, which may refer to the values of `c`, `r` and `t` too. -/
  | explanation
deriving DecidableEq, Repr

/-- Why an element of a template has no value. -/
inductive Obstacle where
  /-- The template is refused. -/
  | refused (cause : Error)
  /-- The client's name is not validated yet. -/
  | clientDomainUnknown
deriving DecidableEq, Repr

/-- The receiver's name when none is given: the first local name with a dot inside, without the
dots at its end, else `unknown`. -/
def fallbackReceivingDomain (localNames : List String) : String :=
  ((localNames.map trimDots).find? fun name => name.toList.contains '.').getD "unknown"

/-- The value that a letter names, in either case, where a template stands. -/
def Values.ofLetter (values : Values) (localNames : List String) (site : Site) (letter : Char) :
    Except Obstacle String :=
  match letter.toLower, site with
  | 'i', _ => .ok values.address
  | 's', _ => .ok values.sender
  | 'l', _ => .ok values.localPart
  | 'o', _ => .ok values.senderDomain
  | 'h', _ => .ok values.helo
  | 'd', _ => .ok values.domain
  | 'v', _ => .ok values.family
  | 'p', _ =>
    match values.clientDomain with
    | some name => .ok name
    | none => .error .clientDomainUnknown
  | 'c', .explanation => .ok values.readableAddress
  | 'r', .explanation =>
    .ok (values.receivingDomain.getD (fallbackReceivingDomain localNames))
  | 't', .explanation => .ok (toString values.timestamp)
  | _, _ => .error (.refused (.unknownLetter letter))

/-- The value of a cell: transformed, and escaped if its letter is a capital. -/
def expandCell (values : Values) (localNames : List String) (site : Site) (content : List Char) :
    Except Obstacle String :=
  match Cell.read content with
  | none => .error (.refused (.malformedCell (String.ofList content)))
  | some cell =>
    match values.ofLetter localNames site cell.letter with
    | .error obstacle => .error obstacle
    | .ok value =>
      match cell.transform value with
      | .error cause => .error (.refused cause)
      | .ok text => .ok (if cell.letter.isUpper then escape text else text)

/-- The value of an element of the given template. -/
def expandElement (values : Values) (localNames : List String) (site : Site) (template : String) :
    Element → Except Obstacle String
  | .literal c => .ok (String.ofList [c])
  | .percent => .ok "%"
  | .space => .ok " "
  | .escapedSpace => .ok "%20"
  | .cell content => expandCell values localNames site content
  | .stray => .error (.refused (.malformedTemplate template))

/-- The values of the elements of a template, one after the other. -/
def expandPiece (values : Values) (localNames : List String) (site : Site) (template : String) :
    Except Obstacle String := do
  let texts ← (elements template.toList).mapM (expandElement values localNames site template)
  return join "" texts

/-- The expansion of a template: of a domain, shortened until it fits into a lookup; of an
explanation, each piece between spaces by itself, joined by single spaces. -/
def expand (values : Values) (localNames : List String) (site : Site) (template : String) :
    Except Obstacle String :=
  match site with
  | .domain => (expandPiece values localNames site template).map Domain.shorten
  | .explanation => do
    let texts ← ((splitOn ' ' template).filter (· ≠ "")).mapM
      (expandPiece values localNames site)
    return join " " texts

/-- The template has the start of a cell for the receiver's name. -/
def mentionsReceivingDomain (template : String) : Bool :=
  occurs ['%', '\x7b', 'r'] template.toList || occurs ['%', '\x7b', 'R'] template.toList

/-! ## Templates without an expansion

A template fails on one of its elements, so what can be wrong with elements is all that can be wrong
with a template. The client's name is asked for while it is unknown and never again, which bounds the
lookups that its validation makes; anything else is an error of the policy. -/

/-- A list fails on the first of its members that does. -/
theorem mapM_eq_error_iff {α β ε : Type} {f : α → Except ε β} {xs : List α} {e : ε} :
    xs.mapM f = .error e ↔ ∃ before x after, xs = before ++ x :: after ∧
      (∀ y ∈ before, ∃ z, f y = .ok z) ∧ f x = .error e := by
  constructor
  · intro h
    induction xs with
    | nil => cases h
    | cons x xs ih =>
      rw [List.mapM_cons] at h
      cases hx : f x with
      | error e' =>
        rw [hx] at h
        cases h
        exact ⟨[], x, xs, rfl, nofun, hx⟩
      | ok y =>
        rw [hx] at h
        cases hxs : xs.mapM f with
        | ok ys =>
          rw [hxs] at h
          cases h
        | error e' =>
          rw [hxs] at h
          cases h
          obtain ⟨before, z, after, rfl, hb, hz⟩ := ih hxs
          exact ⟨x :: before, z, after, rfl, List.forall_mem_cons.mpr ⟨⟨y, hx⟩, hb⟩, hz⟩
  · rintro ⟨before, x, after, rfl, hb, hx⟩
    induction before with
    | nil =>
      rw [List.nil_append, List.mapM_cons, hx]
      rfl
    | cons b before ih =>
      obtain ⟨⟨y, hy⟩, hb⟩ := List.forall_mem_cons.mp hb
      rw [List.cons_append, List.mapM_cons, hy, ih hb]
      rfl

/-- A list fails on one of its members. -/
theorem exists_of_mapM_error {α β ε : Type} {f : α → Except ε β} {xs : List α} {e : ε}
    (h : xs.mapM f = .error e) : ∃ x ∈ xs, f x = .error e := by
  obtain ⟨before, x, after, rfl, -, hx⟩ := mapM_eq_error_iff.mp h
  exact ⟨x, List.mem_append_right before List.mem_cons_self, hx⟩

section Obstacles

variable {values : Values} {localNames : List String} {site : Site} {template : String}
  {obstacle : Obstacle}

theorem exists_of_expandPiece_error
    (h : expandPiece values localNames site template = .error obstacle) :
    ∃ e ∈ elements template.toList,
      expandElement values localNames site template e = .error obstacle := by
  rw [expandPiece, Error.bind_eq_error_iff] at h
  rcases h with hm | ⟨texts, -, ⟨⟩⟩
  exact exists_of_mapM_error hm

/-- A template fails on an element of one of its pieces. -/
theorem exists_of_expand_error (h : expand values localNames site template = .error obstacle) :
    ∃ piece e, expandElement values localNames site piece e = .error obstacle := by
  cases site with
  | domain =>
    rw [expand, Error.map_eq_error_iff] at h
    obtain ⟨e, -, he⟩ := exists_of_expandPiece_error h
    exact ⟨template, e, he⟩
  | explanation =>
    rw [expand, Error.bind_eq_error_iff] at h
    rcases h with hm | ⟨texts, -, ⟨⟩⟩
    obtain ⟨piece, -, hp⟩ := exists_of_mapM_error hm
    obtain ⟨e, -, he⟩ := exists_of_expandPiece_error hp
    exact ⟨piece, e, he⟩

end Obstacles

/-- What is wrong with an element: the client's name is unknown, or the policy is in error. -/
def Obstacle.IsDue (values : Values) : Obstacle → Prop
  | .clientDomainUnknown => values.clientDomain = none
  | .refused cause => cause.result = .permError

section Due

variable {values : Values} {localNames : List String} {site : Site} {template : String}

theorem ofLetter_isDue {letter : Char} {obstacle : Obstacle}
    (h : values.ofLetter localNames site letter = .error obstacle) : obstacle.IsDue values := by
  unfold Values.ofLetter at h
  split at h <;> try cases h
  · split at h <;> cases h
    assumption
  · rfl

theorem transform_error {cell : Cell} {value : String} {cause : Error}
    (h : cell.transform value = .error cause) : cause.result = .permError := by
  simp only [Cell.transform, keepLast] at h
  split at h
  · cases h
  · split at h <;> cases h
    rfl

theorem expandElement_isDue {e : Element} {obstacle : Obstacle}
    (h : expandElement values localNames site template e = .error obstacle) :
    obstacle.IsDue values := by
  cases e with
  | cell content =>
    simp only [expandElement, expandCell] at h
    split at h
    · cases h
      rfl
    · split at h
      · rename_i obstacle' hv
        cases h
        exact ofLetter_isDue hv
      · split at h <;> cases h
        exact transform_error ‹_›
  | stray =>
    cases h
    rfl
  | _ => cases h

/-- The client's name is asked for only while it is unknown. -/
theorem expand_eq_unknown
    (h : expand values localNames site template = .error .clientDomainUnknown) :
    values.clientDomain = none := by
  obtain ⟨piece, e, he⟩ := exists_of_expand_error h
  exact expandElement_isDue he

/-- A template is refused for an error of the policy. -/
theorem expand_refused {cause : Error}
    (h : expand values localNames site template = .error (.refused cause)) :
    cause.result = .permError := by
  obtain ⟨piece, e, he⟩ := exists_of_expand_error h
  exact expandElement_isDue he

end Due

/-! ## Templates that stand for themselves -/

section Plain

variable {values : Values} {localNames : List String} {template : String}

theorem mapM_literal {site : Site} (cs : List Char) :
    (cs.map Element.literal).mapM (expandElement values localNames site template) =
      .ok (cs.map fun c => String.ofList [c]) := by
  induction cs with
  | nil => rfl
  | cons c cs ih =>
    rw [List.map_cons, List.mapM_cons, ih]
    rfl

/-- Without percent signs a template is its own expansion. -/
theorem expandPiece_plain {site : Site} (h : '%' ∉ template.toList) :
    expandPiece values localNames site template = .ok template := by
  have hj : join "" (template.toList.map fun c => String.ofList [c]) = template := by
    simp only [join, List.map_map, Function.comp_def, String.toList_ofList]
    exact (congrArg String.ofList (joined_singletons template.toList)).trans
      String.ofList_toList
  unfold expandPiece
  rw [elements_plain h, mapM_literal]
  exact congrArg Except.ok hj

/-- A domain without percent signs is shortened until it fits, and nothing else. -/
theorem expand_plain (h : '%' ∉ template.toList) :
    expand values localNames .domain template = .ok (Domain.shorten template) := by
  rw [expand, expandPiece_plain h]
  rfl

end Plain

end SenderPolicy.Macro
