import Mathlib.Data.List.Forall2
import SenderPolicy.Proofs.Course.Targets
import SenderPolicy.Proofs.Macro.Case

/-!
# Letter case in the course of a check

Two checks whose identities differ in letter case, and whose lookups are answered with the same
records, go on side by side: what the one looks up, the other looks up in other letters, and a cause
that ends the one has its counterpart in the other. Names that the checks compare are compared
without regard to letter case.

## Main definitions

* `State.Alike`, `Frame.Alike`, `Listener.Alike`, `Signal.Alike`: what differs in letter case only
* `Reaction.Alike`, `Machine.Alike`: reactions and machines of such parts

## Main results

* `use_alike`, `expandTo_alike`: what templates lead to
* `Frame.check_alike`, `Frame.catch_alike`, `Listener.resume_alike`: frames and listeners in turn
* `Machine.step_alike`, `Machine.resume_alike`: steps and answers of two machines
-/

namespace SenderPolicy

open Text

/-- The requests ask for one type of records, of alike names. -/
structure Dns.Request.Alike (request other : Dns.Request) : Prop where
  host : Text.Alike request.host other.host
  type : request.type = other.type

namespace Identity.Alike

variable {i j : Identity}

theorem addressType (h : i.Alike j) : j.addressType = i.addressType := by
  unfold Identity.addressType
  rw [h.client]

theorem reverseName (h : i.Alike j) : j.reverseName = i.reverseName := by
  unfold Identity.reverseName
  rw [h.client]

theorem isClient (h : i.Alike j) : j.isClient = i.isClient := by
  unfold Identity.isClient
  rw [h.client]

theorem inNetwork (h : i.Alike j) : j.inNetwork = i.inNetwork := by
  unfold Identity.inNetwork
  rw [h.client]

end Identity.Alike

namespace Evaluation

/-! ## What differs in letter case only -/

/-- The identities, the current domain and the explanation are alike; all else is the same. -/
inductive State.Alike (s : State) : State → Prop
  | of (identity : Identity) (domain : String) (explanation : Option String)
      (identities : s.identity.Alike identity) (domains : Text.Alike s.domain domain)
      (explanations : s.explanation.map lower = explanation.map lower) :
      s.Alike { s with identity := identity, domain := domain, explanation := explanation }

/-- What an inclusion set aside is alike; other frames are the same. -/
inductive Frame.Alike : Frame → Frame → Prop
  | same (f : Frame) : f.Alike f
  | restoration {domain domain' : String} {explanation explanation' : Option String}
      (isMuted : Bool) (domains : Text.Alike domain domain')
      (explanations : explanation.map lower = explanation'.map lower) :
      (restoration domain explanation isMuted).Alike (restoration domain' explanation' isMuted)

/-- The names that the listeners keep are alike. -/
inductive Listener.Alike : Listener → Listener → Prop
  | same (l : Listener) : l.Alike l
  | policyRecords {domain domain' : String} (domains : Text.Alike domain domain')
      (isStrict : Bool) : (policyRecords domain isStrict).Alike (policyRecords domain' isStrict)
  | pointers {target target' : String} (targets : Text.Alike target target') :
      (pointers target).Alike (pointers target')

/-- The signals are about alike requests, or causes of one result. -/
inductive Signal.Alike : Signal → Signal → Prop
  | proceed : proceed.Alike proceed
  | await {request request' : Dns.Request} {l l' : Listener} (requests : request.Alike request')
      (listeners : l.Alike l') : (await request l).Alike (await request' l')
  | raise {cause cause' : Error} (same : cause.result = cause'.result) :
      (raise cause).Alike (raise cause')

structure Reaction.Alike (r q : Reaction) : Prop where
  state : r.state.Alike q.state
  frames : List.Forall₂ Frame.Alike r.frames q.frames
  signal : r.signal.Alike q.signal

structure Machine.Alike (m n : Machine) : Prop where
  state : m.state.Alike n.state
  frames : List.Forall₂ Frame.Alike m.frames n.frames
  signal : m.signal.Alike n.signal

variable {ctx : Context} {s t : State}

theorem forall₂_alike (frames : List Frame) : List.Forall₂ Frame.Alike frames frames :=
  List.forall₂_same.mpr fun f _ => .same f

namespace Reaction

theorem Alike.above {r q : Reaction} {below below' : List Frame} (h : r.Alike q)
    (hb : List.Forall₂ Frame.Alike below below') : (r.above below).Alike (q.above below') :=
  ⟨h.state, List.rel_append h.frames hb, h.signal⟩

theorem Alike.onto {r q : Reaction} (h : r.Alike q) (f : Frame) : (r.onto f).Alike (q.onto f) :=
  ⟨h.state, List.rel_append h.frames (forall₂_alike [f]), h.signal⟩

theorem alike_done (h : s.Alike t) : (done s).Alike (done t) :=
  ⟨h, .nil, .proceed⟩

theorem alike_leave (h : s.Alike t) (frames : List Frame) :
    (leave s frames).Alike (leave t frames) :=
  ⟨h, forall₂_alike frames, .proceed⟩

theorem alike_await {host host' : String} {l l' : Listener} (h : s.Alike t)
    (hosts : Text.Alike host host') (type : Dns.RecordType) (listeners : l.Alike l') :
    (await s host type l).Alike (await t host' type l') :=
  ⟨h, .nil, .await ⟨hosts, rfl⟩ listeners⟩

theorem alike_fail {cause cause' : Error} (h : s.Alike t) (hc : cause.result = cause'.result) :
    (fail s cause).Alike (fail t cause') :=
  ⟨h, .nil, .raise hc⟩

end Reaction

open Reaction

namespace State

theorem Alike.identity (h : s.Alike t) : s.identity.Alike t.identity := by
  cases h with
  | of _ _ _ identities => exact identities

theorem Alike.domain (h : s.Alike t) : Text.Alike s.domain t.domain := by
  cases h with
  | of _ _ _ _ domains => exact domains

theorem Alike.explanation (h : s.Alike t) :
    s.explanation.map lower = t.explanation.map lower := by
  cases h with
  | of _ _ _ _ _ explanations => exact explanations

theorem Alike.values (h : s.Alike t) : s.values.Alike t.values := by
  cases h with
  | of identity domain explanation identities domains =>
    refine ⟨?_, identities.sender, identities.localPart, identities.senderDomain, identities.helo,
      domains, ?_, ?_, rfl, rfl, identities.timestamp⟩
    · exact congrArg Address.dotted identities.client
    · exact congrArg Address.familyLabel identities.client
    · exact congrArg Address.write identities.client

end State

/-! ## Templates -/

section Templates

variable {x y : Except Error String}

theorem settleReceiver_alike (h : s.Alike t) (ctx : Context) (site : Macro.Site)
    (template : String) :
    (s.settleReceiver ctx site template).Alike (t.settleReceiver ctx site template) := by
  cases h with
  | of identity domain explanation identities domains explanations =>
    unfold State.settleReceiver
    dsimp only
    split
    · exact .of _ _ _ identities domains explanations
    · exact .of _ _ _ identities domains explanations

/-- A template has one fate in both checks: its text is put to use, or refused, or it is put aside
until the client's name is known. -/
theorem expandFor_alike {use : Except Error String → State → Reaction}
    (uses : ∀ {x y : Except Error String} {s t : State}, x.map lower = y.map lower → s.Alike t →
      (use x s).Alike (use y t)) (template : String) (purpose : Purpose) (h : s.Alike t) :
    (expandFor ctx template purpose use s).Alike (expandFor ctx template purpose use t) := by
  have settled := settleReceiver_alike h ctx purpose.site template
  unfold expandFor
  dsimp only
  rcases Macro.cases_of_map_eq (Macro.expand_alike ctx.localNames purpose.site settled.values
    template) with ⟨e, hs, ht⟩ | ⟨a, b, hs, ht, alike⟩
  · rw [hs, ht]
    cases e with
    | refused cause => exact uses rfl settled
    | clientDomainUnknown =>
      dsimp only
      rw [settled.identity.reverseName]
      exact ⟨settled, forall₂_alike _, .await ⟨.refl _, rfl⟩ (.same _)⟩
  · rw [hs, ht]
    exact uses (congrArg Except.ok alike) settled

theorem keepExplanation_alike (hx : x.map lower = y.map lower) (h : s.Alike t) :
    (keepExplanation x s).Alike (keepExplanation y t) := by
  rcases Macro.cases_of_map_eq hx with ⟨e, rfl, rfl⟩ | ⟨a, b, rfl, rfl, alike⟩
  · exact alike_done h
  · cases h with
    | of identity domain explanation identities domains =>
      exact alike_done (.of _ _ (some b) identities domains (congrArg some alike))

theorem explainBy_alike (template : String) (h : s.Alike t) :
    (explainBy ctx template s).Alike (explainBy ctx template t) :=
  expandFor_alike keepExplanation_alike template .defaultExplanation h

theorem explainByDefault_alike (h : s.Alike t) :
    (explainByDefault ctx s).Alike (explainByDefault ctx t) := by
  unfold explainByDefault
  split
  · exact explainBy_alike _ h
  · exact alike_done h

theorem beginInclusion_alike {target target' : String} (targets : Text.Alike target target')
    (h : s.Alike t) : (s.beginInclusion target).Alike (t.beginInclusion target') := by
  cases h with
  | of identity domain explanation identities domains explanations =>
    exact ⟨.of identity target' none identities targets rfl,
      .cons (.same _) (.cons (.restoration _ domains explanations) .nil), .proceed⟩

/-- Alike texts are put to alike uses. -/
theorem use_alike (purpose : Purpose) (hx : x.map lower = y.map lower) (h : s.Alike t) :
    (purpose.use ctx x s).Alike (purpose.use ctx y t) := by
  rcases Macro.cases_of_map_eq hx with ⟨e, rfl, rfl⟩ | ⟨a, b, rfl, rfl, alike⟩
  · cases purpose with
    | explanationDomain | explanation => exact explainByDefault_alike h
    | defaultExplanation => exact alike_done h
    | _ => exact alike_fail h rfl
  · replace alike : Text.Alike a b := alike
    cases purpose with
    | addresses lengths =>
      simp only [Purpose.use, h.identity.addressType]
      exact alike_await h alike _ (.same _)
    | pointer =>
      simp only [Purpose.use, h.identity.reverseName]
      exact alike_await h (.refl _) _ (.pointers alike)
    | exchanges | existence | explanationDomain => exact alike_await h alike _ (.same _)
    | inclusion => exact beginInclusion_alike alike h
    | redirection =>
      cases h with
      | of identity domain explanation identities _ explanations =>
        refine alike_leave ?_ _
        exact .of identity b explanation identities alike explanations
    | explanation | defaultExplanation => exact keepExplanation_alike hx h

theorem expandTo_alike (purpose : Purpose) (template : String) (h : s.Alike t) :
    (expandTo ctx purpose template s).Alike (expandTo ctx purpose template t) :=
  expandFor_alike (use_alike purpose) template purpose h

/-- A mechanism without a domain is about alike names in both checks, as long as the name is not
read as a template. -/
theorem expandTo_implicit_alike {purpose : Purpose} (hp : purpose.explains = false)
    (given : Option String) (plain : '%' ∉ s.domain.toList) {u v : State}
    (domains : Text.Alike s.domain t.domain) (h : u.Alike v) :
    (expandTo ctx purpose (given.getD s.domain) u).Alike
      (expandTo ctx purpose (given.getD t.domain) v) := by
  cases given with
  | some template => exact expandTo_alike purpose template h
  | none =>
    simp only [Option.getD_none]
    rw [expandTo_plain ctx u hp plain,
      expandTo_plain ctx v hp fun hm => plain (domains.percent_mem_iff.mpr hm)]
    exact use_alike purpose (congrArg Except.ok (Domain.alike_shorten domains)) h

end Templates

/-! ## Frames -/

/-- A term is entered in both checks, or is one too many in both. -/
theorem counted_alike {enter enter' : State → Reaction}
    (enters : ∀ {u v : State}, u.Alike v → (enter u).Alike (enter' v)) (h : s.Alike t) :
    (s.counted enter).Alike (t.counted enter') := by
  cases h with
  | of identity domain explanation identities domains explanations =>
    unfold State.counted
    dsimp only
    split
    · exact enters (.of _ _ _ identities domains explanations)
    · exact alike_fail (.of _ _ _ identities domains explanations) rfl

theorem settle_alike (isMatch : Bool) (h : s.Alike t) :
    (s.settle isMatch).Alike (t.settle isMatch) := by
  cases h with
  | of _ _ _ identities domains explanations =>
    exact alike_done (.of _ _ _ identities domains explanations)

theorem mechanismStep_alike (plain : '%' ∉ s.domain.toList) (h : s.Alike t) (m : Mechanism) :
    (mechanismStep ctx s m).Alike (mechanismStep ctx t m) := by
  cases m with
  | all => exact settle_alike _ h
  | network4 | network6 =>
    simp only [mechanismStep, h.identity.client]
    split <;> exact settle_alike _ h
  | address spec lengths =>
    exact counted_alike (expandTo_implicit_alike rfl spec plain h.domain) h
  | exchange spec lengths =>
    exact counted_alike (expandTo_implicit_alike rfl spec plain h.domain) h
  | pointer spec => exact counted_alike (expandTo_implicit_alike rfl spec plain h.domain) h
  | existing spec => exact counted_alike (expandTo_alike .existence spec) h
  | included spec => exact counted_alike (expandTo_alike .inclusion spec) h

theorem directiveStep_alike (plain : '%' ∉ s.domain.toList) (h : s.Alike t) (d : Directive) :
    (directiveStep ctx s d).Alike (directiveStep ctx t d) := by
  cases h with
  | of identity domain explanation identities domains explanations =>
    unfold directiveStep
    dsimp only
    split
    · exact alike_done (.of _ _ _ identities domains explanations)
    · have tried := @mechanismStep_alike ctx { s with matched := none } _ plain
        (.of identity domain explanation identities domains explanations) d.mechanism
      exact tried.onto (.commitment d.qualifier)

theorem commit_alike (qualifier : Qualifier) (h : s.Alike t) :
    (s.commit qualifier).Alike (t.commit qualifier) := by
  cases h with
  | of identity domain explanation identities domains explanations =>
    unfold State.commit
    dsimp only
    split <;> exact .of _ _ _ identities domains explanations

theorem conclude_alike (result : Result) (h : s.Alike t) :
    (s.conclude result).Alike (t.conclude result) := by
  cases h with
  | of identity domain explanation identities domains explanations =>
    unfold State.conclude
    dsimp only
    split <;> exact .of _ _ _ identities domains explanations

theorem modifierStep_alike (h : s.Alike t) (m : Modifier) :
    (modifierStep ctx s m).Alike (modifierStep ctx t m) := by
  cases m with
  | redirect domain =>
    have entered : (s.counted (expandTo ctx .redirection domain)).Alike
        (t.counted (expandTo ctx .redirection domain)) :=
      counted_alike (expandTo_alike .redirection domain) h
    cases h with
    | of _ _ _ identities domains explanations =>
      simp only [modifierStep]
      split
      · exact alike_done (.of _ _ _ identities domains explanations)
      · exact entered
  | explanation domain =>
    have explained : (expandTo ctx .explanationDomain domain s).Alike
        (expandTo ctx .explanationDomain domain t) := expandTo_alike .explanationDomain domain h
    cases h with
    | of _ _ _ identities domains explanations =>
      simp only [modifierStep]
      split
      · exact explained
      · exact alike_done (.of _ _ _ identities domains explanations)
  | unknown name value => exact alike_done h

theorem decorationStep_alike (h : s.Alike t) (d : Decoration) :
    (decorationStep ctx s d).Alike (decorationStep ctx t d) := by
  cases d with
  | neutralWithoutMatch =>
    cases h with
    | of _ _ _ identities domains explanations =>
      simp only [decorationStep]
      refine alike_done ?_
      split <;> exact .of _ _ _ identities domains explanations
  | explanation template =>
    have explained : (explainBy ctx template s).Alike (explainBy ctx template t) :=
      explainBy_alike template h
    have missing : s.explanation = none ↔ t.explanation = none := by
      rw [← Option.map_eq_none_iff (f := lower), h.explanation, Option.map_eq_none_iff]
    cases h with
    | of _ _ _ identities domains explanations =>
      simp only [decorationStep, missing]
      split
      · exact explained
      · exact alike_done (.of _ _ _ identities domains explanations)

theorem stageStep_alike (h : s.Alike t) (st : Policy.Stage) :
    (stageStep s st).Alike (stageStep t st) := by
  cases h with
  | of identity domain explanation identities domains explanations =>
    cases st with
    | overrides table =>
      simp only [stageStep, ← table.lookup_congr domains]
      split <;> exact alike_done (.of _ _ _ identities domains explanations)
    | wellFormed =>
      simp only [stageStep, ← Domain.wellFormed_congr domains]
      split
      · exact alike_done (.of _ _ _ identities domains explanations)
      · exact alike_fail (.of _ _ _ identities domains explanations) rfl
    | published isStrict =>
      simp only [stageStep]
      split
      · exact alike_done (.of _ _ _ identities domains explanations)
      · exact alike_await (.of _ _ _ identities domains explanations) domains .spf
          (.policyRecords domains isStrict)
    | bestGuess text =>
      simp only [stageStep]
      split <;> exact alike_done (.of _ _ _ identities domains explanations)
    | parsed =>
      simp only [stageStep]
      split
      · exact alike_done (.of _ _ _ identities domains explanations)
      · split
        · exact alike_done (.of _ _ _ identities domains explanations)
        · exact alike_fail (.of _ _ _ identities domains explanations) rfl
    | fallbacks table =>
      simp only [stageStep, ← table.lookup_congr domains]
      split <;> exact alike_done (.of _ _ _ identities domains explanations)
    | required =>
      simp only [stageStep]
      split
      · exact alike_fail (.of _ _ _ identities domains explanations) rfl
      · exact alike_done (.of _ _ _ identities domains explanations)
    | trustedForwarder forwarder =>
      simp only [stageStep, ← Domain.sameFolded_congr forwarder domains]
      split <;> exact alike_done (.of _ _ _ identities domains explanations)
    | neutralWithoutMatch => exact alike_done (.of _ _ _ identities domains explanations)
    | explanation template => exact alike_done (.of _ _ _ identities domains explanations)

theorem restore_alike {domain domain' : String} {explanation explanation' : Option String}
    (domains : Text.Alike domain domain')
    (explanations : explanation.map lower = explanation'.map lower) (isMuted : Bool)
    (h : s.Alike t) :
    (s.restore domain explanation isMuted).Alike (t.restore domain' explanation' isMuted) := by
  cases h with
  | of _ _ _ identities => exact .of _ _ _ identities domains explanations

/-- Alike frames leave alike things, as long as the current domain is not read as a template. -/
theorem Frame.check_alike {f g : Frame} (plain : '%' ∉ s.domain.toList) (h : s.Alike t)
    (hf : f.Alike g) : (f.check ctx s).Alike (g.check ctx t) := by
  cases hf with
  | restoration isMuted domains explanations =>
    cases h with
    | of _ _ _ identities => exact alike_done (.of _ _ _ identities domains explanations)
  | same f =>
    cases f with
    | conclusion =>
      have concluded := fun result => conclude_alike result h
      cases h with
      | of => exact alike_done (concluded _)
    | evaluation => exact alike_leave h _
    | stage st => exact stageStep_alike h st
    | terms =>
      cases h with
      | of _ _ _ identities domains explanations =>
        simp only [check, termsStep]
        split
        · refine alike_leave ?_ _
          exact .of _ _ _ identities domains explanations
        · exact alike_fail (.of _ _ _ identities domains explanations) rfl
    | directive d => exact directiveStep_alike plain h d
    | commitment qualifier => exact alike_done (commit_alike qualifier h)
    | modifier m => exact modifierStep_alike h m
    | decoration d => exact decorationStep_alike h d
    | restoration domain explanation isMuted =>
      cases h with
      | of _ _ _ identities => exact alike_done (.of _ _ _ identities (.refl domain) rfl)
    | arrival =>
      cases h with
      | of _ _ _ identities domains explanations =>
        exact alike_done (.of _ _ _ identities domains explanations)
    | expansion template purpose => exact expandTo_alike purpose template h

/-- Alike frames handle causes of one result, or hand causes of one result on. -/
theorem Frame.catch_alike {f g : Frame} {cause cause' : Error}
    (hc : cause.result = cause'.result) (h : s.Alike t) (hf : f.Alike g) :
    (f.catch cause s).1.Alike (g.catch cause' t).1 ∧
      (f.catch cause s).2.map Error.result = (g.catch cause' t).2.map Error.result := by
  cases hf with
  | restoration isMuted domains explanations =>
    refine ⟨restore_alike domains explanations isMuted h, congrArg some ?_⟩
    rw [escalate_result rfl, escalate_result rfl, hc]
  | same f =>
    cases f with
    | conclusion =>
      refine ⟨?_, rfl⟩
      simp only [Frame.catch, hc]
      exact conclude_alike _ h
    | restoration domain explanation isMuted =>
      refine ⟨restore_alike (.refl domain) rfl isMuted h, congrArg some ?_⟩
      rw [escalate_result rfl, escalate_result rfl, hc]
    | arrival =>
      refine ⟨h, congrArg some ?_⟩
      rw [escalate_result rfl, escalate_result rfl, hc]
    | _ => exact ⟨h, congrArg some hc⟩

/-! ## Listeners -/

/-- Two answers that hold the same records, if any, are both failures or one answer. -/
theorem answers_cases {answer answer' : Dns.Answer} (h : answer.toOption = answer'.toOption) :
    (∃ e e', answer = .error e ∧ answer' = .error e') ∨
      ∃ records, answer = .ok records ∧ answer' = .ok records := by
  cases answer with
  | error e =>
    cases answer' with
    | error e' => exact .inl ⟨e, e', rfl, rfl⟩
    | ok records => cases h
  | ok records =>
    cases answer' with
    | error e' => cases h
    | ok records' => exact .inr ⟨records, rfl, congrArg Except.ok (Option.some.inj h).symm⟩

theorem nextExchange_alike (lengths : CidrLengths) (h : s.Alike t) (hosts : List String) :
    (nextExchange lengths s hosts).Alike (nextExchange lengths t hosts) := by
  cases hosts with
  | nil => exact settle_alike false h
  | cons host rest =>
    simp only [nextExchange, h.identity.addressType]
    exact alike_await h (.refl host) _ (.same _)

theorem nextPointer_alike (h : s.Alike t) (names : List String) :
    (nextPointer s names).Alike (nextPointer t names) := by
  cases names with
  | nil => exact settle_alike false h
  | cons name rest =>
    simp only [nextPointer, h.identity.addressType]
    exact alike_await h (.refl name) _ (.same _)

theorem identified_alike (name : String) (h : s.Alike t) :
    State.Alike { s with clientDomain := some name } { t with clientDomain := some name } := by
  cases h with
  | of _ _ _ identities domains explanations => exact .of _ _ _ identities domains explanations

theorem found_alike (text : Option String) (h : s.Alike t) :
    State.Alike { s with text := text } { t with text := text } := by
  cases h with
  | of _ _ _ identities domains explanations => exact .of _ _ _ identities domains explanations

/-- What listeners do when their lookups fail does not depend on the reason. -/
theorem Listener.resume_alike_of_error {l l' : Listener} (e e' : Dns.LookupError) (h : s.Alike t)
    (hl : l.Alike l') :
    (l.resume ctx (.error e) s).Alike (l'.resume ctx (.error e') t) := by
  cases hl with
  | policyRecords => exact alike_fail h rfl
  | pointers => exact settle_alike false h
  | same l =>
    cases l with
    | pointers => exact settle_alike false h
    | pointerAddresses rest => exact nextPointer_alike h rest
    | explanationTexts => exact explainByDefault_alike h
    | clientNames | clientAddresses => exact alike_done (identified_alike "unknown" h)
    | _ => exact alike_fail h rfl

theorem policyAnswered_alike {domain domain' : String} (domains : Text.Alike domain domain')
    (isStrict : Bool) (answer : Dns.Answer) (h : s.Alike t) :
    (policyAnswered domain isStrict answer s).Alike (policyAnswered domain' isStrict answer t) := by
  unfold policyAnswered
  split
  · exact alike_fail h rfl
  · split
    · exact alike_done (found_alike _ h)
    · exact alike_await h domains .txt (.same _)

theorem pointersAnswered_alike {target target' : String} (targets : Text.Alike target target')
    (answer : Dns.Answer) (h : s.Alike t) :
    (pointersAnswered ctx target answer s).Alike (pointersAnswered ctx target' answer t) := by
  have within : (fun name => Domain.isWithin name target') = fun name =>
      Domain.isWithin name target := funext fun name => (Domain.isWithin_congr name targets).symm
  unfold pointersAnswered
  rw [within]
  split <;> exact nextPointer_alike h _

/-- Alike listeners go on in the same way with the same answer. -/
theorem Listener.resume_alike_of_same {l l' : Listener} (answer : Dns.Answer) (h : s.Alike t)
    (hl : l.Alike l') : (l.resume ctx answer s).Alike (l'.resume ctx answer t) := by
  cases hl with
  | policyRecords domains isStrict => exact policyAnswered_alike domains isStrict answer h
  | pointers targets => exact pointersAnswered_alike targets answer h
  | same l =>
    cases l with
    | policyRecords domain isStrict => exact policyAnswered_alike (.refl domain) isStrict answer h
    | textRecords isStrict other =>
      simp only [Listener.resume, textAnswered]
      split
      · exact alike_fail h rfl
      · exact alike_done (found_alike _ h)
    | addresses lengths =>
      simp only [Listener.resume, addressesAnswered, h.identity.inNetwork]
      split
      · exact alike_fail h rfl
      · exact settle_alike _ h
    | exchanges lengths =>
      simp only [Listener.resume, exchangesAnswered]
      split
      · exact alike_fail h rfl
      · exact nextExchange_alike lengths h _
    | exchangeAddresses rest lengths =>
      simp only [Listener.resume, exchangeAddressesAnswered, h.identity.inNetwork]
      split
      · exact alike_fail h rfl
      · split
        · exact settle_alike true h
        · exact nextExchange_alike lengths h rest
    | pointers target => exact pointersAnswered_alike (.refl target) answer h
    | pointerAddresses rest =>
      simp only [Listener.resume, pointerAddressesAnswered, h.identity.isClient]
      split
      · exact nextPointer_alike h rest
      · split
        · exact settle_alike true h
        · exact nextPointer_alike h rest
    | existence =>
      simp only [Listener.resume, existenceAnswered]
      split
      · exact alike_fail h rfl
      · exact settle_alike _ h
    | explanationTexts =>
      simp only [Listener.resume, explanationAnswered]
      split
      · exact expandTo_alike .explanation _ h
      · exact explainByDefault_alike h
    | clientNames =>
      simp only [Listener.resume, clientNamed, h.identity.addressType]
      split
      · exact alike_await h (.refl _) _ (.same _)
      · exact alike_done (identified_alike "unknown" h)
    | clientAddresses name =>
      simp only [Listener.resume, State.clientValidated, h.identity.isClient]
      exact alike_done (identified_alike _ h)

/-! ## Machines -/

variable {m n : Machine}

/-- A step of a check goes along with a step of the other, as long as the current domain is not read
as a template. -/
theorem Machine.step_alike (plain : '%' ∉ m.state.domain.toList) (h : m.Alike n) :
    Option.Rel Machine.Alike (m.step ctx) (n.step ctx) := by
  obtain ⟨p, s, fs⟩ := m
  obtain ⟨q, t, gs⟩ := n
  obtain ⟨states, frames, signals⟩ := h
  dsimp only at plain states frames signals
  cases signals with
  | await => exact .none
  | proceed =>
    cases frames with
    | nil => exact .none
    | cons first below => exact .some ((Frame.check_alike plain states first).above below)
  | raise same =>
    cases frames with
    | nil => exact .some ⟨conclude_alike .neutral states, .nil, .proceed⟩
    | @cons f g fs gs first below =>
      obtain ⟨caught, handed⟩ := Frame.catch_alike same states first
      simp only [Machine.step]
      generalize f.catch _ s = left at *
      generalize g.catch _ t = right at *
      obtain ⟨u, cause⟩ := left
      obtain ⟨v, cause'⟩ := right
      cases cause with
      | none =>
        cases cause' with
        | none => exact .some ⟨caught, below, .proceed⟩
        | some _ => cases handed
      | some cause =>
        cases cause' with
        | none => cases handed
        | some cause' => exact .some ⟨caught, below, .raise (Option.some.inj handed)⟩

/-- A check that awaits an answer goes along with one that awaits the answer of an alike name. -/
theorem Machine.Alike.exists_await {request : Dns.Request} {listener : Listener} (h : m.Alike n)
    (hs : m.signal = .await request listener) :
    ∃ request' listener', n.signal = .await request' listener' ∧ request.Alike request' := by
  have signals := h.signal
  rw [hs] at signals
  generalize n.signal = awaited at signals ⊢
  cases signals with
  | await requests => exact ⟨_, _, rfl, requests⟩

/-- Answers with the same records keep two checks side by side. -/
theorem Machine.resume_alike {request : Dns.Request} {listener : Listener}
    {answer answer' : Dns.Answer} (hs : m.signal = .await request listener)
    (answers : answer.toOption = answer'.toOption) (h : m.Alike n) :
    (m.resume ctx answer).Alike (n.resume ctx answer') := by
  obtain ⟨p, s, fs⟩ := m
  obtain ⟨q, t, gs⟩ := n
  obtain ⟨states, frames, signals⟩ := h
  dsimp only at hs states frames signals
  subst hs
  cases signals with
  | await requests listeners =>
    rcases answers_cases answers with ⟨e, e', rfl, rfl⟩ | ⟨records, rfl, rfl⟩
    · exact (Listener.resume_alike_of_error e e' states listeners).above frames
    · exact (Listener.resume_alike_of_same (.ok records) states listeners).above frames

end Evaluation

end SenderPolicy
