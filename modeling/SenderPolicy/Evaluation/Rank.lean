import SenderPolicy.Evaluation.Machine

/-!
# The rank of a check

Every step of the machine lowers a rank, and so does every answer, whatever it says. The rank has
six parts, of which each bounds how often the next can be renewed: terms with lookups are counted;
the client's name is validated once; only counted terms start the evaluation of another domain; an
evaluation has finitely many stages; a lookup that brings a list is followed by one lookup for each
member; and every other frame leaves less work than it takes.

## Main definitions

* `rankOf`: the rank of a state, of the frames at the top, and of how the last of them ended
* `Lower`: the order of ranks

## Main results

* `Lower.lex`: the order is well-founded
* `Lower.above`: frames below the top make no difference
* `lower_of_parts`: with the first two parts unchanged, the others decide
-/

namespace SenderPolicy.Evaluation

/-! ## The parts of the rank

The first two parts are read off the state: the terms that may still be entered, and how far the
validation of the client's name has to go. The others are totals over the frames, to which the
signal adds what an answer leads to. -/

namespace Frame

/-- The evaluations of domains that a frame leads to without a further counted term. -/
def domainsAhead : Frame → Nat
  | expansion _ .inclusion | expansion _ .redirection => 2
  | evaluation => 1
  | _ => 0

/-- The stages that a frame leads to without a further evaluation, retrieval counted thrice. -/
def stagesAhead : Frame → Nat
  | stage _ => 3
  | terms => 1
  | _ => 0

/-- The lists that a frame leads to. -/
def listsAhead : Frame → Nat
  | expansion _ (.exchanges _) | expansion _ .pointer => 2
  | _ => 0

/-- The work that a frame leaves: a directive leaves the frame that commits it and a wait, a wait
for the client's name leaves the frame that expands the template again. -/
def workAhead : Frame → Nat
  | directive _ | modifier _ => 5
  | expansion _ _ => 4
  | _ => 1

end Frame

namespace Signal

/-- The stages that an answer leads to. -/
def stagesAhead : Signal → Nat
  | await _ (.policyRecords _ _) => 2
  | await _ (.textRecords _ _) => 1
  | _ => 0

/-- The lists that an answer brings. -/
def listsAhead : Signal → Nat
  | await _ (.exchanges _) | await _ (.pointers _) => 1
  | _ => 0

/-- The work that a signal leaves. -/
def workAhead : Signal → Nat
  | proceed => 0
  | raise _ => 1
  | await _ (.exchangeAddresses rest _) => 2 + rest.length
  | await _ (.pointerAddresses rest) => 2 + rest.length
  | await _ .clientNames => 3
  | await _ _ => 2

/-- How far the validation of the client's name has to go, from the full way. -/
def validationAhead (way : Nat) : Signal → Nat
  | await _ (.clientAddresses _) => min 1 way
  | await _ .clientNames => min 2 way
  | _ => way

@[simp] theorem stagesAhead_proceed : proceed.stagesAhead = 0 := rfl

@[simp] theorem listsAhead_proceed : proceed.listsAhead = 0 := rfl

@[simp] theorem workAhead_proceed : proceed.workAhead = 0 := rfl

@[simp] theorem stagesAhead_raise (cause : Error) : (raise cause).stagesAhead = 0 := rfl

@[simp] theorem listsAhead_raise (cause : Error) : (raise cause).listsAhead = 0 := rfl

@[simp] theorem workAhead_raise (cause : Error) : (raise cause).workAhead = 1 := rfl

end Signal

/-- How far the validation of the client's name has to go while none is under way. -/
def State.validationAhead (s : State) : Nat :=
  if s.clientDomain.isSome then 0 else 3

theorem State.validationAhead_congr {s t : State} (h : t.clientDomain = s.clientDomain) :
    t.validationAhead = s.validationAhead := by
  simp [validationAhead, h]

/-- The total of a measure over frames. -/
def total (measure : Frame → Nat) : List Frame → Nat
  | [] => 0
  | f :: fs => measure f + total measure fs

@[simp] theorem total_nil (measure : Frame → Nat) : total measure [] = 0 := rfl

@[simp] theorem total_cons (measure : Frame → Nat) (f : Frame) (fs : List Frame) :
    total measure (f :: fs) = measure f + total measure fs := rfl

@[simp] theorem total_append (measure : Frame → Nat) (fs gs : List Frame) :
    total measure (fs ++ gs) = total measure fs + total measure gs := by
  induction fs with
  | nil => simp
  | cons f fs ih => simp [ih, Nat.add_assoc]

/-- A measure that vanishes on every frame vanishes in total. -/
theorem total_eq_zero {measure : Frame → Nat} {frames : List Frame}
    (h : ∀ f ∈ frames, measure f = 0) : total measure frames = 0 := by
  induction frames with
  | nil => rfl
  | cons f fs ih => simp_all

/-! ## The order of ranks

Ranks are compared from left to right. A frame that enters a term may leave any amount of work, as
may one that brings the validation under way: what counts is the leftmost part that changes. -/

/-- The parts of the rank, compared from left to right. -/
abbrev Rank := Nat × Nat × Nat × Nat × Nat × Nat

/-- The rank of a state, of the frames at the top, and of how the last of them ended. -/
def rankOf (s : State) (frames : List Frame) (signal : Signal) : Rank :=
  (maxTerms - s.depth, signal.validationAhead s.validationAhead, total Frame.domainsAhead frames,
    total Frame.stagesAhead frames + signal.stagesAhead,
    total Frame.listsAhead frames + signal.listsAhead,
    total Frame.workAhead frames + signal.workAhead)

/-- One rank is lower than another. -/
def Lower (a b : Rank) : Prop :=
  a.1 < b.1 ∨ a.1 = b.1 ∧ (a.2.1 < b.2.1 ∨ a.2.1 = b.2.1 ∧ (a.2.2.1 < b.2.2.1 ∨
    a.2.2.1 = b.2.2.1 ∧ (a.2.2.2.1 < b.2.2.2.1 ∨ a.2.2.2.1 = b.2.2.2.1 ∧
      (a.2.2.2.2.1 < b.2.2.2.2.1 ∨ a.2.2.2.2.1 = b.2.2.2.2.1 ∧ a.2.2.2.2.2 < b.2.2.2.2.2))))

/-- Ranks descend finitely often. -/
theorem Lower.lex {a b : Rank} (h : Lower a b) : WellFoundedRelation.rel a b := by
  obtain ⟨a₁, a₂, a₃, a₄, a₅, a₆⟩ := a
  obtain ⟨b₁, b₂, b₃, b₄, b₅, b₆⟩ := b
  simp only [Lower] at h
  rcases h with h | ⟨rfl, h | ⟨rfl, h | ⟨rfl, h | ⟨rfl, h | ⟨rfl, h⟩⟩⟩⟩⟩
  · exact Prod.Lex.left _ _ h
  · exact Prod.Lex.right _ (Prod.Lex.left _ _ h)
  · exact Prod.Lex.right _ (Prod.Lex.right _ (Prod.Lex.left _ _ h))
  · exact Prod.Lex.right _ (Prod.Lex.right _ (Prod.Lex.right _ (Prod.Lex.left _ _ h)))
  · exact Prod.Lex.right _ (Prod.Lex.right _ (Prod.Lex.right _ (Prod.Lex.right _
      (Prod.Lex.left _ _ h))))
  · exact Prod.Lex.right _ (Prod.Lex.right _ (Prod.Lex.right _ (Prod.Lex.right _
      (Prod.Lex.right _ h))))

theorem Lower.trans {a b c : Rank} (h : Lower a b) (k : Lower b c) : Lower a c := by
  simp only [Lower] at *
  omega

/-- Frames below the top count the same on both sides. -/
theorem Lower.above {s t : State} {fs gs : List Frame} {p q : Signal}
    (h : Lower (rankOf s fs p) (rankOf t gs q)) (below : List Frame) :
    Lower (rankOf s (fs ++ below) p) (rankOf t (gs ++ below) q) := by
  simp only [Lower, rankOf, total_append] at h ⊢
  omega

/-- The rank of what a reaction leaves. -/
def Reaction.rank (r : Reaction) : Rank :=
  rankOf r.state r.frames r.signal

/-- The signal does not validate the client's name. -/
def Signal.IsPlain (signal : Signal) : Prop :=
  ∀ way, signal.validationAhead way = way

/-- With as many terms entered and the client's name as far from validation, the other parts of
the rank decide. -/
theorem lower_of_parts {s t : State} {fs gs : List Frame} {p q : Signal} (hd : t.depth = s.depth)
    (hv : p.validationAhead t.validationAhead = q.validationAhead s.validationAhead)
    (h : total Frame.domainsAhead fs < total Frame.domainsAhead gs ∨
      total Frame.domainsAhead fs = total Frame.domainsAhead gs ∧
      (total Frame.stagesAhead fs + p.stagesAhead < total Frame.stagesAhead gs + q.stagesAhead ∨
        total Frame.stagesAhead fs + p.stagesAhead = total Frame.stagesAhead gs + q.stagesAhead ∧
        (total Frame.listsAhead fs + p.listsAhead < total Frame.listsAhead gs + q.listsAhead ∨
          total Frame.listsAhead fs + p.listsAhead = total Frame.listsAhead gs + q.listsAhead ∧
          total Frame.workAhead fs + p.workAhead < total Frame.workAhead gs + q.workAhead))) :
    Lower (rankOf t fs p) (rankOf s gs q) :=
  Or.inr ⟨by simp only [rankOf, hd], Or.inr ⟨hv, h⟩⟩

/-- With as many terms entered and the client's name no further from validation, the other parts
of the rank decide. -/
theorem lower_of_parts_of_le {s t : State} {fs gs : List Frame} {p q : Signal}
    (hd : t.depth = s.depth)
    (hv : p.validationAhead t.validationAhead ≤ q.validationAhead s.validationAhead)
    (h : total Frame.domainsAhead fs < total Frame.domainsAhead gs ∨
      total Frame.domainsAhead fs = total Frame.domainsAhead gs ∧
      (total Frame.stagesAhead fs + p.stagesAhead < total Frame.stagesAhead gs + q.stagesAhead ∨
        total Frame.stagesAhead fs + p.stagesAhead = total Frame.stagesAhead gs + q.stagesAhead ∧
        (total Frame.listsAhead fs + p.listsAhead < total Frame.listsAhead gs + q.listsAhead ∨
          total Frame.listsAhead fs + p.listsAhead = total Frame.listsAhead gs + q.listsAhead ∧
          total Frame.workAhead fs + p.workAhead < total Frame.workAhead gs + q.workAhead))) :
    Lower (rankOf t fs p) (rankOf s gs q) := by
  rcases Nat.lt_or_eq_of_le hv with hv | hv
  · exact Or.inr ⟨by simp only [rankOf, hd], Or.inl hv⟩
  · exact lower_of_parts hd hv h


end SenderPolicy.Evaluation
