import SenderPolicy.Proofs.Address.Reverse
import SenderPolicy.Proofs.Course.Exchanges
import SenderPolicy.Proofs.Macro.Parts

/-!
# The reverse name of a check

A check asks for `PTR` records of one name, that of the client's address. A policy can write the
same name as a template, from the client's address and the label of its family. Both make it up from
the text that stands for the address inside domain names, and it says which client it is.

## Main definitions

* `reverseTemplate`: the template of the reverse name
* `Signal.AsksReverse`: the `PTR` records that are asked for are those of the reverse name

## Main results

* `expand_reverseTemplate`: the template is expanded to the reverse name
* `Course.host_of_ptr`: a check asks for the `PTR` records of the reverse name alone
* `reverseName_shared`: the reverse name of a check is that of its client and of no other
-/

namespace SenderPolicy.Evaluation

open Text Macro

/-! ## The template of the reverse name -/

/-- The template of the reverse name: the address in reverse, and the family below `arpa`. -/
def reverseTemplate : String := "%\x7bir\x7d.%\x7bv\x7d.arpa"

/-- A cell without digits and delimiters keeps the labels of a value, in order or in reverse. -/
theorem transform_labels (letter : Char) (isReversed : Bool) (value : String) :
    Cell.transform ⟨letter, [], isReversed, []⟩ value = .ok (String.ofList (joined ['.']
      (if isReversed then (pieces (· = '.') value.toList).reverse
        else pieces (· = '.') value.toList))) := by
  have cuts : Cell.CutsLabels ⟨letter, [], isReversed, []⟩ := rfl
  rw [transform_of_nil rfl, cuts.parts_eq]
  rfl

section Template

variable (s : State) (localNames : List String)

theorem expandCell_reversedAddress : expandCell s.values localNames .domain ['i', 'r'] =
    .ok (String.ofList
      (joined ['.'] (pieces (· = '.') s.identity.client.dotted.toList).reverse)) := by
  have cell : Cell.read ['i', 'r'] = some ⟨'i', [], true, []⟩ := by decide
  have value : s.values.ofLetter localNames .domain 'i' = .ok s.identity.client.dotted := rfl
  simp only [expandCell, cell, value, transform_labels]
  rfl

theorem expandCell_family :
    expandCell s.values localNames .domain ['v'] = .ok s.identity.client.familyLabel := by
  have cell : Cell.read ['v'] = some ⟨'v', [], false, []⟩ := by decide
  have value : s.values.ofLetter localNames .domain 'v' = .ok s.identity.client.familyLabel := rfl
  simp only [expandCell, cell, value, transform_labels, Bool.false_eq_true, if_false,
    joined_pieces, String.ofList_toList]
  rfl

/-- The template is expanded to the reverse name, which fits into a lookup as it is. -/
theorem expand_reverseTemplate :
    expand s.values localNames .domain reverseTemplate = .ok s.identity.reverseName := by
  have read : elements reverseTemplate.toList = [.cell ['i', 'r'], .literal '.', .cell ['v'],
      .literal '.', .literal 'a', .literal 'r', .literal 'p', .literal 'a'] := by decide
  have whole : expandPiece s.values localNames .domain reverseTemplate =
      .ok s.identity.reverseName := by
    rw [expandPiece, read]
    simp only [List.mapM_cons, List.mapM_nil, expandElement, expandCell_reversedAddress,
      expandCell_family]
    refine congrArg Except.ok ?_
    rw [← String.toList_inj]
    simp [join, joined, Identity.reverseName, Address.reverseName_eq_dotted]
  rw [expand, whole]
  exact congrArg Except.ok (Domain.shorten_of_le s.identity.client.octets_reverseName_le)

end Template

/-! ## The lookups of the reverse name -/

/-- If `PTR` records are asked for, they are those of the reverse name. -/
def Signal.AsksReverse (identity : Identity) (signal : Signal) : Prop :=
  ∀ request listener, signal = .await request listener → request.type = .ptr →
    request.host = identity.reverseName

namespace Signal.AsksReverse

variable {identity : Identity} {host : String} {type : Dns.RecordType} {listener : Listener}

theorem proceed : AsksReverse identity .proceed := nofun

theorem raise {cause : Error} : AsksReverse identity (.raise cause) := nofun

theorem reverse : AsksReverse identity (.await ⟨identity.reverseName, .ptr⟩ listener) := by
  rintro _ _ ⟨⟩ -
  rfl

theorem other (h : type ≠ .ptr) : AsksReverse identity (.await ⟨host, type⟩ listener) := by
  rintro _ _ ⟨⟩ asked
  exact absurd asked h

theorem addresses : AsksReverse identity (.await ⟨host, identity.addressType⟩ listener) := by
  refine other ?_
  unfold Identity.addressType
  split <;> nofun

end Signal.AsksReverse

section Lookups

open Signal.AsksReverse

variable {ctx : Context} {s : State} {m m' : Machine} {identity : Identity}
  {exchanges : List Exchange}

/-- A template leads to a lookup of the reverse name, or to what its text is used for. -/
theorem expandFor_asksReverse {template : String} {purpose : Purpose}
    {use : Except Error String → State → Reaction}
    (used : ∀ result t, t.identity = s.identity →
      (use result t).signal.AsksReverse s.identity) :
    (expandFor ctx template purpose use s).signal.AsksReverse s.identity := by
  obtain ⟨r, -, ⟨text, he⟩ | ⟨cause, -, he⟩ | ⟨-, he⟩⟩ := expandFor_eq ctx template purpose use s
  · rw [he]
    exact used (.ok text) _ rfl
  · rw [he]
    exact used (.error cause) _ rfl
  · rw [he]
    exact reverse

theorem explainByDefault_asksReverse :
    (explainByDefault ctx s).signal.AsksReverse s.identity := by
  unfold explainByDefault
  split
  · refine expandFor_asksReverse fun result t _ => ?_
    cases result <;> exact proceed
  · exact proceed

theorem use_asksReverse (purpose : Purpose) (result : Except Error String) :
    (purpose.use ctx result s).signal.AsksReverse s.identity := by
  cases result with
  | ok text =>
    cases purpose with
    | addresses lengths => exact addresses
    | exchanges lengths | existence | explanationDomain => exact other nofun
    | pointer => exact reverse
    | _ => exact proceed
  | error cause =>
    cases purpose with
    | explanationDomain | explanation => exact explainByDefault_asksReverse
    | defaultExplanation => exact proceed
    | _ => exact raise

theorem expandTo_asksReverse (purpose : Purpose) (template : String) :
    (expandTo ctx purpose template s).signal.AsksReverse s.identity :=
  expandFor_asksReverse fun result _ same => same ▸ use_asksReverse purpose result

theorem counted_asksReverse {purpose : Purpose} {template : String} :
    (s.counted (expandTo ctx purpose template)).signal.AsksReverse s.identity := by
  refine counted_cases (P := fun r => r.signal.AsksReverse s.identity) (fun _ => raise) fun _ => ?_
  have same : s.entered.identity = s.identity := rfl
  rw [← same]
  exact expandTo_asksReverse purpose template

theorem mechanismStep_asksReverse (mechanism : Mechanism) :
    (mechanismStep ctx s mechanism).signal.AsksReverse s.identity := by
  cases mechanism with
  | all => exact proceed
  | network4 net | network6 net =>
    simp only [mechanismStep]
    split <;> exact proceed
  | _ => exact counted_asksReverse

theorem check_asksReverse (f : Frame) : (f.check ctx s).signal.AsksReverse s.identity := by
  cases f with
  | stage st =>
    show (stageStep s st).signal.AsksReverse s.identity
    have turn := stageStep_turn ctx s st
    generalize stageStep s st = r at turn ⊢
    cases turn with
    | found => exact proceed
    | lost => exact raise
    | asked => exact other nofun
  | terms =>
    show (termsStep s).signal.AsksReverse s.identity
    unfold termsStep
    split
    · exact proceed
    · exact raise
  | directive d =>
    show (directiveStep ctx s d).signal.AsksReverse s.identity
    unfold directiveStep
    split
    · exact proceed
    · exact mechanismStep_asksReverse d.mechanism
  | modifier modifier =>
    show (modifierStep ctx s modifier).signal.AsksReverse s.identity
    cases modifier with
    | redirect domain =>
      simp only [modifierStep]
      split
      · exact proceed
      · exact counted_asksReverse
    | explanation domain =>
      simp only [modifierStep]
      split
      · exact expandTo_asksReverse .explanationDomain domain
      · exact proceed
    | unknown name value => exact proceed
  | decoration d =>
    show (decorationStep ctx s d).signal.AsksReverse s.identity
    cases d with
    | neutralWithoutMatch => exact proceed
    | explanation template =>
      simp only [decorationStep]
      split
      · refine expandFor_asksReverse fun result t _ => ?_
        cases result <;> exact proceed
      · exact proceed
  | expansion template purpose => exact expandTo_asksReverse purpose template
  | _ => exact proceed

theorem resume_asksReverse (listener : Listener) (answer : Dns.Answer) :
    (listener.resume ctx answer s).signal.AsksReverse s.identity := by
  have heard := resume_heard ctx answer s listener
  generalize listener.resume ctx answer s = r at heard ⊢
  cases heard with
  | failed => exact raise
  | askedText => exact other nofun
  | exchange | nextExchange | name | nextName | clientNamed => exact addresses
  | explains r expanded =>
    cases expanded with
    | aside r template request unknown same kept asked =>
      subst asked
      exact reverse
    | refused r cause h => cases h
    | explained => exact proceed
    | lookup r host type listener h => cases h
  | _ => exact proceed

theorem step_asksReverse (hs : m.step ctx = some m') :
    m'.signal.AsksReverse m.state.identity := by
  obtain ⟨signal, s, frames⟩ := m
  cases signal with
  | await request listener => simp [Machine.step] at hs
  | proceed =>
    cases frames with
    | nil => cases hs
    | cons f below =>
      cases hs
      exact check_asksReverse f
  | raise cause =>
    cases frames with
    | nil =>
      cases hs
      exact proceed
    | cons f below =>
      simp only [Machine.step] at hs
      split at hs <;> cases hs
      · exact proceed
      · exact raise

/-- A check asks for the `PTR` records of the reverse name alone. -/
theorem Course.host_of_ptr (h : Course ctx m exchanges m')
    (hm : m.signal.AsksReverse m.state.identity) :
    ∀ e ∈ exchanges, e.request.type = .ptr → e.request.host = m.state.identity.reverseName := by
  induction h with
  | refl => nofun
  | @step m m₁ m₂ exchanges hs _ ih =>
    have same := (Course.step hs (.refl m₁)).identity
    rw [← same]
    exact ih (same ▸ step_asksReverse hs)
  | @answer m m₂ request listener exchanges hs a _ ih =>
    have same := (Course.answer hs a (.refl (m.resume ctx a))).identity
    refine List.forall_mem_cons.mpr ⟨hm request listener hs, ?_⟩
    rw [← same]
    refine ih (same ▸ ?_)
    obtain ⟨signal, s, frames⟩ := m
    subst hs
    exact resume_asksReverse listener a

end Lookups

/-! ## The client of a reverse name -/

/-- The identity is read from texts of which the first is a literal of the address. -/
def ReadFrom (a : Address) (identity : Identity) : Prop :=
  ∃ address sender helo timestamp, Address.read (trim address) = some a ∧
    Identity.read address sender helo timestamp = .ok identity

theorem ReadFrom.client {a : Address} {identity : Identity} (h : ReadFrom a identity) :
    identity.client = a.normal := by
  obtain ⟨address, sender, helo, timestamp, ha, hr⟩ := h
  simp only [Identity.read, ha] at hr
  split at hr <;> cases hr
  rfl

theorem reverseName_eq_iff {a a' : Address} {identity identity' : Identity}
    (h : ReadFrom a identity) (h' : ReadFrom a' identity') :
    identity.reverseName = identity'.reverseName ↔ a.normal = a'.normal := by
  rw [Identity.reverseName, Identity.reverseName, Address.reverseName_inj, h.client, h'.client]

/-- The name whose `PTR` records a check asks for is what the template of the reverse name expands
to. It says which client the check is about: the names of two clients differ, unless their addresses
are the same, or one is the IPv4-mapped spelling of the other. -/
theorem reverseName_shared :
    (∀ (s : State) (localNames : List String),
      expand s.values localNames .domain reverseTemplate = .ok s.identity.reverseName) ∧
    (∀ (ctx : Context) (identity : Identity) (receivingDomain : Option String)
      (exchanges : List Exchange) (m : Machine),
      Course ctx (machineOf identity receivingDomain) exchanges m →
        ∀ e ∈ exchanges, e.request.type = .ptr → e.request.host = identity.reverseName) ∧
    (∀ (a a' : Address) (identity identity' : Identity), ReadFrom a identity →
      ReadFrom a' identity' →
        (identity.reverseName = identity'.reverseName ↔ a.normal = a'.normal)) ∧
    (∀ (word : BitVec 128) (inner : BitVec 32) (identity identity' : Identity),
      Address.mapped? word = some inner → ReadFrom (.v6 word) identity →
        ReadFrom (.v4 inner) identity' → identity.reverseName = identity'.reverseName) := by
  refine ⟨expand_reverseTemplate, fun ctx identity receivingDomain exchanges m course => ?_,
    fun a a' identity identity' h h' => reverseName_eq_iff h h', ?_⟩
  · exact course.host_of_ptr Signal.AsksReverse.proceed
  · intro word inner identity identity' mapped h h'
    exact (reverseName_eq_iff h h').mpr (by simp [Address.normal, mapped])

/-- Both spellings of a client. -/
example : ["192.0.2.1", "::ffff:192.0.2.1"].map (fun address =>
    (Identity.read address "a@b" "b" 0).toOption.map Identity.reverseName) =
      [some "1.2.0.192.in-addr.arpa", some "1.2.0.192.in-addr.arpa"] := by
  decide

end SenderPolicy.Evaluation
