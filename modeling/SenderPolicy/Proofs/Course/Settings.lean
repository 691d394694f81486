import SenderPolicy.Proofs.Course.Unexplained

/-!
# Settings of explanations

The receiver's template and names, its name if it is given, and the time are what explanations
alone depend on. Two checks that differ in nothing else are the same check without explanations up
to the point where a failure is committed outside of inclusions, and to their end if there is no
such point: they make the same lookups up to it, and come to the same result. Behind it they look up
nothing but the explanation and the client's name.

## Main definitions

* `Until`: a machine comes to the first point of a kind
* `Parting`: the points behind which explanations can tell checks apart
* `Settings`: the settings of explanations

## Main results

* `Until.unexplained`: a check comes to its parting as it does without explanations
* `Until.agree`: checks that are the same without explanations come to the same parting
* `settings_explain`: settings of explanations change neither the result nor the header of a check
-/

namespace SenderPolicy

/-! ## Identities

Neither the time nor the receiver's name decides anything about the identities of a check. -/

theorem Identity.read_timestamp (address sender helo : String) (timestamp timestamp' : Int) :
    read address sender helo timestamp' =
      (read address sender helo timestamp).map fun identity =>
        { identity with timestamp := timestamp' } := by
  simp only [read]
  cases Address.read (Text.trim address) with
  | none => rfl
  | some client =>
    obtain ⟨localPart, domain⟩ := cutSender (Text.trim sender) (Text.trimDots (Text.trim helo))
    simp only
    split
    · rfl
    · rfl

theorem Inquiry.begin_timestamp (inquiry : Inquiry) (timestamp timestamp' : Int) :
    inquiry.begin timestamp' =
      (inquiry.begin timestamp).map fun identity => { identity with timestamp := timestamp' } := by
  simp only [Inquiry.begin]
  rw [Identity.read_timestamp _ _ _ timestamp timestamp']
  cases Identity.read inquiry.address inquiry.sender inquiry.helo timestamp <;> rfl

theorem Inquiry.begin_receivingDomain (inquiry : Inquiry) (receivingDomain : Option String)
    (timestamp : Int) :
    { inquiry with receivingDomain := receivingDomain }.begin timestamp =
      inquiry.begin timestamp := by
  simp only [Inquiry.begin]

namespace Evaluation

/-! ## Up to a point -/

/-- A machine that a service answers comes to the first point of a kind, with the exchanges on the
way. -/
inductive Until (stop : Machine → Prop) (ctx : Context) (service : Dns.Service) :
    Machine → List Exchange → Machine → Prop
  | here {m : Machine} (stopped : stop m) : Until stop ctx service m [] m
  | step {m m₁ p : Machine} {exchanges : List Exchange} (going : ¬stop m)
      (hs : m.step ctx = some m₁) (rest : Until stop ctx service m₁ exchanges p) :
      Until stop ctx service m exchanges p
  | answer {m p : Machine} {request : Dns.Request} {listener : Listener}
      {exchanges : List Exchange} (going : ¬stop m) (hs : m.signal = .await request listener)
      (rest : Until stop ctx service (m.resume ctx (service request)) exchanges p) :
      Until stop ctx service m (⟨request, listener, service request⟩ :: exchanges) p

namespace Until

variable {stop : Machine → Prop} {ctx : Context} {service : Dns.Service} {m p p' : Machine}
  {exchanges exchanges' : List Exchange}

/-- A check that is not stopped before comes to its end. -/
theorem exists_until (ended : ∀ s, stop ⟨.proceed, s, []⟩) (ctx : Context)
    (service : Dns.Service) (m : Machine) :
    ∃ exchanges p, Until stop ctx service m exchanges p := by
  -- on the points that are still to come, with the answers of the service
  induction m using (continues_wellFounded ctx).induction with
  | _ m ih =>
    by_cases stopped : stop m
    · exact ⟨[], m, .here stopped⟩
    · cases hs : m.step ctx with
      | some m₁ =>
        obtain ⟨exchanges, p, rest⟩ := ih m₁ (.inl hs)
        exact ⟨exchanges, p, .step stopped hs rest⟩
      | none =>
        rcases step_eq_none hs with ⟨request, listener, hw⟩ | ⟨hp, hf⟩
        · obtain ⟨exchanges, p, rest⟩ := ih _ (.inr ⟨request, listener, service request, hw, rfl⟩)
          exact ⟨_, p, .answer stopped hw rest⟩
        · obtain ⟨signal, s, frames⟩ := m
          cases hp
          cases hf
          exact absurd (ended s) stopped

theorem stops (h : Until stop ctx service m exchanges p) : stop p := by
  induction h with
  | here stopped => exact stopped
  | step _ _ _ ih => exact ih
  | answer _ _ _ ih => exact ih

theorem course (h : Until stop ctx service m exchanges p) : Course ctx m exchanges p := by
  induction h with
  | here => exact .refl _
  | step _ hs _ ih => exact .step hs ih
  | answer _ hs _ ih => exact .answer hs _ ih

theorem answered (h : Until stop ctx service m exchanges p) :
    ∀ e ∈ exchanges, e.answer = service e.request := by
  induction h with
  | here => exact List.forall_mem_nil _
  | step _ _ _ ih => exact ih
  | answer _ _ _ ih => exact List.forall_mem_cons.mpr ⟨rfl, ih⟩

/-- The first point of a kind is one, and so are the exchanges before it. -/
theorem unique (h : Until stop ctx service m exchanges p)
    (h' : Until stop ctx service m exchanges' p') : exchanges' = exchanges ∧ p' = p := by
  induction h generalizing exchanges' with
  | here stopped =>
    cases h' with
    | here => exact ⟨rfl, rfl⟩
    | step going | answer going => exact absurd stopped going
  | step going hs _ ih =>
    cases h' with
    | here stopped => exact absurd stopped going
    | step _ hs' rest =>
      rw [hs] at hs'
      cases hs'
      exact ih rest
    | answer _ hw => simp [Machine.step, hw] at hs
  | answer going hw _ ih =>
    cases h' with
    | here stopped => exact absurd stopped going
    | step _ hs => simp [Machine.step, hw] at hs
    | answer _ hw' rest =>
      rw [hw] at hw'
      cases hw'
      obtain ⟨rfl, rfl⟩ := ih rest
      exact ⟨rfl, rfl⟩

/-- The lookups up to a point come before those behind it. -/
theorem finish_eq (h : Until stop ctx service m exchanges p) :
    m.finish ctx service =
      (exchanges.map Exchange.request ++ (p.finish ctx service).1, (p.finish ctx service).2) :=
  h.course.finish_eq h.answered

end Until

/-! ## Where checks part -/

/-- A failure is about to be committed outside of inclusions, or the check has ended: before this,
nothing is explained. -/
def Parting (m : Machine) : Prop :=
  Decides .fail m ∨ m.signal = .proceed ∧ m.frames = []

/-- What holds at every point of a check up to its parting. -/
structure Plain (m : Machine) : Prop where
  orderly : Orderly m
  committable : Committable m
  unheard : Unheard m

section Parting

variable {ctx : Context} {q : Qualifier} {m m' : Machine} {f g : Frame}

theorem isRestoration_of_unexplained (h : f.unexplained = some g) :
    g.isRestoration = f.isRestoration := by
  cases f with
  | stage st => cases st <;> cases h <;> rfl
  | decoration d => cases d <;> cases h; rfl
  | _ =>
    cases h
    rfl

theorem eq_commitment_of_unexplained (h : f.unexplained = some (.commitment q)) :
    f = .commitment q := by
  cases f with
  | stage st => cases st <;> cases h
  | decoration d => cases d <;> cases h
  | commitment q' =>
    cases h
    rfl
  | _ => cases h

/-- What is not left is no mechanism. -/
theorem isMechanism_of_unexplained (h : f.unexplained = none) : f.isMechanism = false := by
  cases f with
  | stage | decoration => rfl
  | _ => cases h

theorem Decides.unexplained (h : Decides q m) : Decides q m.unexplained := by
  obtain ⟨signal, s, frames⟩ := m
  obtain ⟨rfl, matched, below, rfl, hr⟩ := h
  refine ⟨rfl, matched, below.filterMap Frame.unexplained, rfl, ?_⟩
  intro g hg
  obtain ⟨f, hf, left⟩ := List.mem_filterMap.mp hg
  exact (isRestoration_of_unexplained left).trans (hr f hf)

/-- A commitment on top without explanations is on top with them: what they leave upon others
settles no mechanism. -/
theorem Decides.of_unexplained (hc : Committable m) (h : Decides q m.unexplained) :
    Decides q m := by
  obtain ⟨signal, s, frames⟩ := m
  obtain ⟨hs, matched, below, hf, hr⟩ := h
  obtain ⟨front, f, back, rfl, none_left, left, hb⟩ := List.filterMap_eq_cons_iff.mp hf
  cases eq_commitment_of_unexplained left
  subst hb
  have top : front = [] := by
    rcases List.eq_nil_or_concat front with rfl | ⟨upper, f, rfl⟩
    · rfl
    · have chain := hc.chain
      simp only [List.concat_eq_append, List.append_assoc, List.singleton_append] at chain
      have upon := (List.isChain_append_cons_cons.mp chain).2.1 rfl
      rw [isMechanism_of_unexplained (none_left f (by simp))] at upon
      cases upon
  subst top
  refine ⟨hs, matched, back, rfl, ?_⟩
  intro f hf
  cases hl : f.unexplained with
  | none =>
    cases f with
    | stage | decoration => rfl
    | _ => cases hl
  | some g =>
    rw [← isRestoration_of_unexplained hl]
    exact hr g (List.mem_filterMap.mpr ⟨f, hf, hl⟩)

/-- Of checks that are the same without explanations, both commit a qualifier or none does. -/
theorem Decides.congr (h : Decides q m) (same : m.unexplained = m'.unexplained)
    (hc : Committable m') : Decides q m' := by
  have decides := h.unexplained
  rw [same] at decides
  exact decides.of_unexplained hc

/-- A check has ended if nothing is left of it without explanations. -/
theorem Orderly.frames_eq_nil (h : Orderly m) (hm : m.unexplained.frames = []) :
    m.frames = [] := by
  by_contra hne
  obtain ⟨fs, hf, -⟩ := h.stacked.exists_conclusion hne
  have left : Frame.conclusion ∈ m.unexplained.frames :=
    List.mem_filterMap.mpr ⟨.conclusion, by simp [hf], rfl⟩
  rw [hm] at left
  cases left

theorem finish_of_frames {service : Dns.Service} (hs : m.signal = .proceed) (hf : m.frames = []) :
    m.finish ctx service = ([], m.state) := by
  obtain ⟨signal, s, frames⟩ := m
  subst hs hf
  exact Machine.finish_of_end ctx service s

/-- Of checks that are the same without explanations, both have ended or none has. -/
theorem Orderly.finish_of_congr {service : Dns.Service} (h : Orderly m')
    (same : m.unexplained = m'.unexplained) (hs : m.signal = .proceed) (hf : m.frames = []) :
    m'.finish ctx service = ([], m'.state) := by
  refine finish_of_frames ((congrArg Machine.signal same).symm.trans hs) (h.frames_eq_nil ?_)
  rw [← same, Machine.unexplained, hf]
  rfl

namespace Plain

theorem begin (identity : Identity) (receivingDomain : Option String) :
    Plain (machineOf identity receivingDomain) :=
  ⟨.begin identity receivingDomain, .begin _, .begin identity receivingDomain⟩

theorem step (h : Plain m) (going : ¬Parting m) (hs : m.step ctx = some m') : Plain m' :=
  ⟨h.orderly.step hs, h.committable.step hs,
    h.unheard.step h.orderly (fun hd => going (.inl hd)) hs⟩

theorem resume {request : Dns.Request} {listener : Listener} (h : Plain m)
    (hs : m.signal = .await request listener) (answer : Dns.Answer) :
    Plain (m.resume ctx answer) :=
  ⟨h.orderly.resume hs, h.committable.resume hs answer, h.unheard.resume hs answer⟩

/-- Checks part where they do without explanations. -/
theorem parting_iff (h : Plain m) : Parting m.unexplained ↔ Parting m := by
  constructor
  · rintro (decides | ⟨hs, hf⟩)
    · exact .inl (decides.of_unexplained h.committable)
    · exact .inr ⟨hs, h.orderly.frames_eq_nil hf⟩
  · rintro (decides | ⟨hs, hf⟩)
    · exact .inl decides.unexplained
    · exact .inr ⟨hs, by simp [Machine.unexplained, hf]⟩

end Plain

end Parting

namespace Until

variable {ctx ctx' : Context} {service : Dns.Service} {m m' p p' : Machine}
  {exchanges exchanges' : List Exchange}

theorem plain (h : Until Parting ctx service m exchanges p) (hm : Plain m) : Plain p := by
  induction h with
  | here => exact hm
  | step going hs _ ih => exact ih (hm.step going hs)
  | answer _ hs _ ih => exact ih (hm.resume hs _)

/-- A check comes to its parting as it does without explanations. -/
theorem unexplained (h : Until Parting ctx service m exchanges p) (hm : Plain m) :
    Until Parting ctx.unexplained service m.unexplained exchanges p.unexplained := by
  induction h with
  | here stopped => exact .here (hm.parting_iff.mpr stopped)
  | step going hs _ ih =>
    have rest := ih (hm.step going hs)
    rcases Machine.step_unexplained hm.unheard hs with same | hs'
    · rwa [same] at rest
    · exact .step (mt hm.parting_iff.mp going) hs' rest
  | answer going hs _ ih =>
    have rest := ih (hm.resume hs _)
    rw [Machine.resume_unexplained hm.unheard hs] at rest
    exact .answer (mt hm.parting_iff.mp going) hs rest

/-- Checks that are the same without explanations come to the same parting, by the same
exchanges. -/
theorem agree (h : Until Parting ctx service m exchanges p)
    (h' : Until Parting ctx' service m' exchanges' p') (hm : Plain m) (hm' : Plain m')
    (same : ctx'.unexplained = ctx.unexplained) (sameM : m'.unexplained = m.unexplained) :
    exchanges' = exchanges ∧ p'.unexplained = p.unexplained := by
  have rest := h'.unexplained hm'
  rw [same, sameM] at rest
  exact (h.unexplained hm).unique rest

end Until

/-! ## Settings -/

/-- The settings of explanations: the receiver's template and names, its name if it is given, and
the seconds from the epoch to the check. -/
structure Settings where
  template : Option String
  localNames : List String
  receivingDomain : Option String
  timestamp : Int

namespace Settings

variable (settings : Settings) (ctx : Context) (service : Dns.Service)
  (inquiry : Inquiry)

/-- What a check with the settings does not change. -/
def context : Context :=
  { ctx with
    policy := { ctx.policy with defaultExplanation := settings.template }
    localNames := settings.localNames }

/-- The lookups and the outcome of a check with the settings. -/
def check : List Dns.Request × Outcome :=
  SenderPolicy.check (settings.context ctx) service .blocking settings.timestamp
    { inquiry with receivingDomain := settings.receivingDomain }

/-- A check with the settings commits a failure outside of inclusions behind the first lookups; what
it looks up then is the explanation and the client's name. -/
def FailsBehind (first later : List Dns.Request) : Prop :=
  ∃ identity m before behind last,
    inquiry.begin settings.timestamp = .ok identity ∧
    Course (settings.context ctx) (machineOf identity settings.receivingDomain) before m ∧
    Decides .fail m ∧ Completes (settings.context ctx) m behind last ∧
    before.map Exchange.request = first ∧ behind.map Exchange.request = later ∧
    (∀ e ∈ before ++ behind, e.answer = service e.request) ∧
    (∀ e ∈ behind, e.listener.isOfExplanation) ∧ behind.length ≤ 3

variable {settings ctx service inquiry}

/-- The lookups up to the parting of a check come first, and the rest decides the outcome. -/
theorem check_of_until {identity : Identity} {exchanges : List Exchange} {p : Machine}
    (h : inquiry.begin settings.timestamp = .ok identity)
    (up : Until Parting (settings.context ctx) service
      (machineOf identity settings.receivingDomain) exchanges p) :
    settings.check ctx service inquiry =
      (exchanges.map Exchange.request ++ (p.finish (settings.context ctx) service).1,
        outcomeOf identity (some (p.finish (settings.context ctx) service).2)) := by
  simp only [check, SenderPolicy.check, Inquiry.begin_receivingDomain, h, Executor.execute,
    List.map_cons, List.map_nil, List.flatMap_cons, List.flatMap_nil, List.append_nil,
    List.head?_cons, Option.join_some, up.finish_eq]

theorem check_of_error {outcome : Outcome}
    (h : inquiry.begin settings.timestamp = .error outcome) :
    settings.check ctx service inquiry = ([], outcome) := by
  simp only [check, SenderPolicy.check, Inquiry.begin_receivingDomain, h]

/-- Behind a commitment a check fails, and looks up nothing but what explains it. -/
theorem failsBehind {identity : Identity} {exchanges : List Exchange} {p : Machine}
    (h : inquiry.begin settings.timestamp = .ok identity)
    (up : Until Parting (settings.context ctx) service
      (machineOf identity settings.receivingDomain) exchanges p)
    (decides : Decides .fail p) :
    (p.finish (settings.context ctx) service).2.result = some .fail ∧
      settings.FailsBehind ctx service inquiry (exchanges.map Exchange.request)
        (p.finish (settings.context ctx) service).1 := by
  have plain := up.plain (.begin _ _)
  obtain ⟨behind, completes, requests, answered⟩ :=
    completes_finish (settings.context ctx) service p
  obtain ⟨result, final⟩ := decides.completes plain.orderly plain.committable completes
  refine ⟨result, identity, p, exchanges, behind, _, h, up.course, decides, completes, rfl,
    requests, List.forall_mem_append.mpr ⟨up.answered, answered⟩, ?_, final.lookups⟩
  intro e he
  exact (final.explains e he).1

end Settings

/-- Outcomes of the same result and header differ in the explanation at most. -/
theorem outcomeOf_eq {identity identity' : Identity} {last last' : State}
    (fields : identity'.headerFields = identity.headerFields)
    (result : last'.result = last.result) :
    ∃ explanation, outcomeOf identity' (some last') =
      { outcomeOf identity (some last) with explanation := explanation } := by
  simp only [outcomeOf, Outcome.ofResult, fields, result]
  exact ⟨_, rfl⟩

/-- Settings of explanations do not influence the verdict: two checks that differ in nothing else
end with the same outcome, apart from the explanation, and make the same lookups up to the point
where a failure is committed outside of inclusions; behind it each of them looks up no more than the
explanation and the client's name. -/
theorem settings_explain (ctx : Context) (service : Dns.Service) (inquiry : Inquiry)
    (settings settings' : Settings) :
    (∃ explanation, (settings'.check ctx service inquiry).2 =
      { (settings.check ctx service inquiry).2 with explanation := explanation }) ∧
    ∃ first later later', (settings.check ctx service inquiry).1 = first ++ later ∧
      (settings'.check ctx service inquiry).1 = first ++ later' ∧
      (later = [] ∧ later' = [] ∨
        (settings.check ctx service inquiry).2.result = .fail ∧
          settings.FailsBehind ctx service inquiry first later ∧
          settings'.FailsBehind ctx service inquiry first later') := by
  have begun' := inquiry.begin_timestamp settings.timestamp settings'.timestamp
  cases begun : inquiry.begin settings.timestamp with
  | error outcome =>
    -- identities that cannot be read are reported, whatever the settings are
    rw [begun] at begun'
    rw [Settings.check_of_error begun, Settings.check_of_error begun']
    exact ⟨⟨outcome.explanation, rfl⟩, [], [], [], rfl, rfl, .inl ⟨rfl, rfl⟩⟩
  | ok identity =>
    rw [begun] at begun'
    have ended : ∀ s, Parting ⟨.proceed, s, []⟩ := fun s => .inr ⟨rfl, rfl⟩
    obtain ⟨exchanges, p, up⟩ := Until.exists_until ended (settings.context ctx) service
      (machineOf identity settings.receivingDomain)
    obtain ⟨exchanges', p', up'⟩ := Until.exists_until ended (settings'.context ctx) service
      (machineOf { identity with timestamp := settings'.timestamp } settings'.receivingDomain)
    obtain ⟨rfl, same⟩ := up'.agree up (.begin _ _) (.begin _ _) rfl rfl
    have plain' := up'.plain (.begin _ _)
    rw [Settings.check_of_until begun up, Settings.check_of_until begun' up']
    rcases up.stops with decides | ⟨hs, hf⟩
    · have decides' := decides.congr same plain'.committable
      obtain ⟨result, behind⟩ := Settings.failsBehind begun up decides
      obtain ⟨result', behind'⟩ := Settings.failsBehind begun' up' decides'
      have fails : (outcomeOf identity (some (p.finish (settings.context ctx) service).2)).result =
          .fail := by
        simp only [outcomeOf, Outcome.ofResult, result, Option.getD_some]
      exact ⟨outcomeOf_eq rfl (result'.trans result.symm), _, _, _, rfl, rfl,
        .inr ⟨fails, behind, behind'⟩⟩
    · have result : p'.state.result = p.state.result :=
        congrArg (fun m => m.state.result) same.symm
      rw [finish_of_frames hs hf, plain'.orderly.finish_of_congr same hs hf]
      exact ⟨outcomeOf_eq rfl result, _, [], [], rfl, rfl, .inl ⟨rfl, rfl⟩⟩

end Evaluation

end SenderPolicy
