import SenderPolicy.Proofs.Record.Acceptance

/-!
# Tokens are cut in one way

The parts of a token are what the token says they are: a domain may hold colons, slashes, equals
signs and digits, and yet no token is written with other parts, or as another term. The only
exception are modifiers with a meaning, whose text is also that of one without. A parser may
therefore try the terms in any order, and find the parts of each by any search, as long as it tries
the modifiers with a meaning before those without; what it makes of a record is always the same.

## Main definitions

* `MechanismParts.cut`: the parts of a mechanism
* `Shape`, `Shape.Matches`: the parts of a token, and the tokens that are cut into them
* `Shape.answer`: the term of a shape, or why its values are refused
* `Order`, `Cutting`, `parseBy`: an order of the terms, a way to cut each of them, and the record
  that is read so

## Main results

* `MechanismParts.Written.unique`: a mechanism is written with one choice of parts
* `ModifierParts.Written.unique_or_outranks`: so is a modifier, but for those with a meaning
* `Shape.Matches.unique_or_outranks`: a token has one shape, but for those
* `parse_unambiguous`: whatever the order and the cuts are, a record is read in one way
-/

namespace SenderPolicy.Record

open Text Macro

/-! ## The parts of a mechanism -/

/-- The domain behind a colon, if there is one. -/
def domainBehind : List Char → Option (List Char)
  | [] => none
  | _ :: domain => some domain

theorem OptionalDomain.eq_domainBehind {target : List Char} {domain : Option (List Char)}
    (h : OptionalDomain target domain) : domain = domainBehind target := by
  cases h <;> rfl

/-- The parts that the argument of a word is cut into. -/
def MechanismParts.ofArgument (word : String) (argument : List Char) : MechanismParts :=
  match word with
  | "include" => .included argument.tail
  | "a" => .address (domainBehind (cutLengths argument).1) (cutLengths argument).2.1
      (cutLengths argument).2.2
  | "mx" => .exchange (domainBehind (cutLengths argument).1) (cutLengths argument).2.1
      (cutLengths argument).2.2
  | "ptr" => .pointer (domainBehind argument)
  | "ip4" => .network4 (cutLength ['/'] argument.tail).1 (cutLength ['/'] argument.tail).2
  | "ip6" => .network6 (cutLength ['/'] argument.tail).1 (cutLength ['/'] argument.tail).2
  | "exists" => .existing argument.tail
  | _ => .all

/-- The parts that the text of a mechanism is cut into. -/
def MechanismParts.cut (text : List Char) : MechanismParts :=
  ofArgument (String.ofList ((text.takeWhile fun c => !endsKeyword c).map foldedChar))
    (text.dropWhile fun c => !endsKeyword c)

theorem MechanismParts.cut_append {word : String} {k argument : List Char} (hk : Keyword word k)
    (hw : word ∈ words) (ha : ∀ c ∈ argument.head?, endsKeyword c = true) :
    cut (k ++ argument) = ofArgument word argument := by
  obtain ⟨front, behind⟩ := hk.cut_append hw ha
  rw [cut, front, behind]

theorem MechanismParts.cut_keyword {word : String} {k : List Char} (hk : Keyword word k)
    (hw : word ∈ words) : cut k = ofArgument word [] := by
  have bare : ∀ c ∈ ([] : List Char).head?, endsKeyword c = true := by simp
  simpa only [List.append_nil] using MechanismParts.cut_append hk hw bare

/-- The parts of a mechanism can be read off its text. -/
theorem MechanismParts.Written.eq_cut {text : List Char} {parts : MechanismParts}
    (h : parts.Written text) : parts = MechanismParts.cut text := by
  have colon {cs : List Char} : ∀ c ∈ (':' :: cs).head?, Record.endsKeyword c = true := by
    simp [endsKeyword]
  cases h with
  | all hk => exact (MechanismParts.cut_keyword hk (by decide)).symm
  | included hk hd => exact (MechanismParts.cut_append hk (by decide) colon).symm
  | address hk hd h4 h6 =>
    rw [MechanismParts.cut_append hk (by decide) (endsKeyword_argument hd h4 h6),
      hd.eq_domainBehind]
    simp only [MechanismParts.ofArgument, cutLengths_of_lengths hd h4 h6]
  | exchange hk hd h4 h6 =>
    rw [MechanismParts.cut_append hk (by decide) (endsKeyword_argument hd h4 h6),
      hd.eq_domainBehind]
    simp only [MechanismParts.ofArgument, cutLengths_of_lengths hd h4 h6]
  | pointer hk hd =>
    cases hd with
    | absent =>
      rw [List.append_nil]
      exact (MechanismParts.cut_keyword hk (by decide)).symm
    | present hd => exact (MechanismParts.cut_append hk (by decide) colon).symm
  | network4 hk ha hl =>
    rw [MechanismParts.cut_append hk (by decide) colon]
    simp only [MechanismParts.ofArgument, List.tail_cons,
      cutLength_of_unslashed ha.slash_not_mem hl]
  | network6 hk ha hl =>
    rw [MechanismParts.cut_append hk (by decide) colon]
    simp only [MechanismParts.ofArgument, List.tail_cons,
      cutLength_of_unslashed ha.slash_not_mem hl]
  | existing hk hd => exact (MechanismParts.cut_append hk (by decide) colon).symm

/-- A mechanism is written with one choice of parts. -/
theorem MechanismParts.Written.unique {text : List Char} {parts parts' : MechanismParts}
    (h : parts.Written text) (h' : parts'.Written text) : parts = parts' :=
  h.eq_cut.trans h'.eq_cut.symm

/-! ## The parts of a modifier -/

/-- The parts of a modifier with this name and this value. -/
inductive ModifierParts.Named (name value : List Char) : ModifierParts → Prop
  | redirect (hk : Keyword "redirect" name) : Named name value (.redirect value)
  | explanation (hk : Keyword "exp" name) : Named name value (.explanation value)
  | unknown : Named name value (.unknown name value)

/-- The name of a modifier ends in front of the first equals sign. -/
theorem ModifierParts.Written.exists_named {text : List Char} {parts : ModifierParts}
    (h : parts.Written text) :
    ∃ name value, text = name ++ '=' :: value ∧ '=' ∉ name ∧ parts.Named name value := by
  cases h with
  | redirect hk hd =>
    exact ⟨_, _, rfl, hk.mark_not_mem (by decide) (by decide), .redirect hk⟩
  | explanation hk hd =>
    exact ⟨_, _, rfl, hk.mark_not_mem (by decide) (by decide), .explanation hk⟩
  | unknown hn hv =>
    exact ⟨_, _, rfl, fun hm => (isModifierName_chars hn _ hm).1 rfl, .unknown⟩

/-- A modifier is written with one choice of parts, or with two of which one has a meaning. -/
theorem ModifierParts.Written.unique_or_outranks {text : List Char} {parts parts' : ModifierParts}
    (h : parts.Written text) (h' : parts'.Written text) :
    parts = parts' ∨ parts.Outranks parts' ∨ parts'.Outranks parts := by
  obtain ⟨name, value, rfl, hm, hn⟩ := h.exists_named
  obtain ⟨name', value', same, hm', hn'⟩ := h'.exists_named
  obtain ⟨rfl, ⟨⟩⟩ : name = name' ∧ '=' :: value = '=' :: value' := by
    obtain ⟨front, behind⟩ := cut_append_mark hm value
    obtain ⟨front', behind'⟩ := cut_append_mark hm' value'
    exact ⟨front.symm.trans ((congrArg _ same).trans front'),
      behind.symm.trans ((congrArg _ same).trans behind')⟩
  have apart (hr : Keyword "redirect" name) (he : Keyword "exp" name) : False :=
    absurd (hr.symm.trans he) (by decide)
  cases hn with
  | redirect hk =>
    cases hn' with
    | redirect => exact .inl rfl
    | explanation hk' => exact (apart hk hk').elim
    | unknown => exact .inr (.inl (.redirect hk))
  | explanation hk =>
    cases hn' with
    | redirect hk' => exact (apart hk' hk).elim
    | explanation => exact .inl rfl
    | unknown => exact .inr (.inl (.explanation hk))
  | unknown =>
    cases hn' with
    | redirect hk => exact .inr (.inr (.redirect hk))
    | explanation hk => exact .inr (.inr (.explanation hk))
    | unknown => exact .inl rfl

/-! ## The shapes of a token -/

/-- The parts of a token: those of a mechanism, with the qualifier if there is one, or those of a
modifier. -/
inductive Shape where
  | directive (qualifier : Option Qualifier) (parts : MechanismParts)
  | modifier (parts : ModifierParts)

namespace Shape

/-- The tokens of a shape. -/
inductive Matches : List Char → Shape → Prop
  | implied {text : List Char} {parts : MechanismParts} (hw : parts.Written text) :
      Matches text (.directive none parts)
  | qualified {text : List Char} {parts : MechanismParts} (q : Qualifier)
      (hw : parts.Written text) : Matches (q.symbol :: text) (.directive (some q) parts)
  | modifier {text : List Char} {parts : ModifierParts} (hw : parts.Written text) :
      Matches text (.modifier parts)

/-- A modifier with a meaning comes before the one without. -/
inductive Outranks : Shape → Shape → Prop
  | modifier {parts parts' : ModifierParts} (h : parts.Outranks parts') :
      Outranks (.modifier parts) (.modifier parts')

/-- The term of a shape, or why its values are refused. -/
def answer : Shape → Except Error Term
  | directive qualifier parts =>
    parts.answer.map fun m => .directive ⟨qualifier.getD .implied, m⟩
  | modifier parts => parts.answer.map .modifier

variable {token : List Char} {shape shape' : Shape}

/-- The qualifier is cut off a directive, if there is one. -/
theorem Matches.exists_cutQualifier {qualifier : Option Qualifier} {parts : MechanismParts}
    (h : (directive qualifier parts).Matches token) :
    ∃ text, cutQualifier token = (qualifier.getD .implied, text) ∧ parts.Written text ∧
      (qualifier = none ↔ text = token) := by
  cases h with
  | implied hw => exact ⟨token, hw.cutQualifier, hw, by simp⟩
  | @qualified text _ q hw => exact ⟨text, cutQualifier_symbol q text, hw, by simp⟩

/-- No modifier is a directive. -/
theorem Matches.not_directive {parts : ModifierParts} (h : (Shape.modifier parts).Matches token)
    (qualifier : Option Qualifier) (parts' : MechanismParts) :
    ¬ (directive qualifier parts').Matches token := by
  intro h'
  cases h with | modifier hw => ?_
  obtain ⟨text, cut, hw', -⟩ := h'.exists_cutQualifier
  rw [hw.cutQualifier] at cut
  obtain rfl : token = text := congrArg Prod.snd cut
  have read := readMechanism_eq_some_iff.mpr ⟨parts', hw', rfl⟩
  rw [hw.readMechanism] at read
  cases read

theorem Matches.unique_of_directives {qualifier qualifier' : Option Qualifier}
    {parts parts' : MechanismParts} (h : (directive qualifier parts).Matches token)
    (h' : (directive qualifier' parts').Matches token) :
    directive qualifier parts = directive qualifier' parts' := by
  obtain ⟨text, cut, hw, hq⟩ := h.exists_cutQualifier
  obtain ⟨text', cut', hw', hq'⟩ := h'.exists_cutQualifier
  rw [cut, Prod.mk.injEq] at cut'
  obtain ⟨same, rfl⟩ := cut'
  rw [hw.unique hw']
  -- a qualifier is there if the text is not all of the token, which is the same for both
  cases qualifier with
  | none => rw [hq'.mpr (hq.mp rfl)]
  | some q =>
    cases qualifier' with
    | none => cases hq.mpr (hq'.mp rfl)
    | some q' => rw [show q = q' from same]

/-- A token has one shape, or two of which one is a modifier with a meaning. -/
theorem Matches.unique_or_outranks (h : shape.Matches token) (h' : shape'.Matches token) :
    shape = shape' ∨ shape.Outranks shape' ∨ shape'.Outranks shape := by
  cases shape with
  | directive qualifier parts =>
    cases shape' with
    | directive qualifier' parts' => exact .inl (h.unique_of_directives h')
    | modifier parts' => exact absurd h (h'.not_directive qualifier parts)
  | modifier parts =>
    cases shape' with
    | directive qualifier' parts' => exact absurd h' (h.not_directive qualifier' parts')
    | modifier parts' =>
      cases h with | modifier hw => ?_
      cases h' with | modifier hw' => ?_
      obtain rfl | outranks | outranked := hw.unique_or_outranks hw'
      · exact .inl rfl
      · exact .inr (.inl (.modifier outranks))
      · exact .inr (.inr (.modifier outranked))

/-- A token is read as its shape, or as the one that outranks the others. -/
theorem Matches.read_eq (h : shape.Matches token)
    (first : ∀ shape' : Shape, shape'.Matches token → ¬ shape'.Outranks shape) :
    Term.read token = shape.answer := by
  cases shape with
  | directive qualifier parts =>
    obtain ⟨text, cut, hw, -⟩ := h.exists_cutQualifier
    simp only [Term.read, cut, readMechanism_eq_some_iff.mpr ⟨parts, hw, rfl⟩]
    rfl
  | modifier parts =>
    cases h with | modifier hw => ?_
    have read : readModifier token = some parts.answer :=
      readModifier_eq_some_iff.mpr ⟨parts, hw,
        fun parts' hw' outranks => first _ (.modifier hw') (.modifier outranks), rfl⟩
    simp only [Term.read, hw.cutQualifier, hw.readMechanism, read]
    rfl

/-- A token without a shape is no term. -/
theorem read_of_not_matches (h : ∀ shape : Shape, ¬ shape.Matches token) :
    Term.read token = .error (.unknownTerm (String.ofList token)) := by
  obtain ⟨q, text, cut⟩ : ∃ q text, cutQualifier token = (q, text) := ⟨_, _, rfl⟩
  have mechanism : readMechanism text = none := by
    rw [Option.eq_none_iff_forall_ne_some]
    intro answer read
    obtain ⟨parts, hw, -⟩ := readMechanism_eq_some_iff.mp read
    rcases exists_of_cutQualifier cut with ⟨rfl, rfl⟩ | rfl
    · exact h _ (.implied hw)
    · exact h _ (.qualified q hw)
  have modifier : readModifier token = none := by
    rw [Option.eq_none_iff_forall_ne_some]
    intro answer read
    obtain ⟨parts, hw, -⟩ := readModifier_eq_some_iff.mp read
    exact h _ (.modifier hw)
  simp only [Term.read, cut, mechanism, modifier]

end Shape

/-! ## Terms in any order -/

/-- The kind of term that has these parts. -/
def MechanismParts.kind : MechanismParts → String
  | all => "all"
  | included _ => "include"
  | address _ _ _ => "a"
  | exchange _ _ _ => "mx"
  | pointer _ => "ptr"
  | network4 _ _ => "ip4"
  | network6 _ _ => "ip6"
  | existing _ => "exists"

/-- The kind of term that has these parts. -/
def ModifierParts.kind : ModifierParts → String
  | redirect _ => "redirect"
  | explanation _ => "exp"
  | unknown _ _ => "unknown"

/-- The kind of term that has this shape. -/
def Shape.kind : Shape → String
  | directive _ parts => parts.kind
  | modifier parts => parts.kind

/-- The kinds of terms, as the grammar has them. -/
def kinds : List String := keywords ++ ["redirect", "exp", "unknown"]

theorem Shape.kind_mem_kinds (shape : Shape) : shape.kind ∈ Record.kinds := by
  cases shape with
  | directive qualifier parts => cases parts <;> simp [kind, MechanismParts.kind, kinds, keywords]
  | modifier parts => cases parts <;> simp [kind, ModifierParts.kind, kinds]

/-- An order in which the kinds of terms are tried: all of them, and the modifiers with a meaning
before those without. -/
structure Order where
  kinds : List String
  complete : ∀ shape : Shape, shape.kind ∈ kinds
  meant_first : ∀ before behind, kinds = before ++ "unknown" :: behind →
    "redirect" ∈ before ∧ "exp" ∈ before

/-- The order of the grammar. -/
def Order.standard : Order where
  kinds := Record.kinds
  complete := Shape.kind_mem_kinds
  meant_first := by
    intro before behind h
    have front : keywords ++ ["redirect", "exp"] ++ "unknown" :: [] =
        before ++ "unknown" :: behind := h
    obtain ⟨rfl, -, -⟩ := (List.append_cons_inj_of_notMem (by decide) (by decide)).mp front
    decide

/-- A way to cut tokens, for each kind of term: what is found is a shape of the token, and if there
is one, one is found. Which one it is, if there were several, is left open. -/
structure Cutting where
  cut : String → List Char → Option Shape
  sound : ∀ {kind : String} {token : List Char} {shape : Shape}, cut kind token = some shape →
    shape.Matches token ∧ shape.kind = kind
  complete : ∀ {token : List Char} {shape : Shape}, shape.Matches token →
    (cut shape.kind token).isSome = true

open Classical in
/-- A shape of the token that is of this kind, if there is one. -/
noncomputable def someShape (kind : String) (token : List Char) : Option Shape :=
  if h : ∃ shape : Shape, shape.Matches token ∧ shape.kind = kind then some h.choose else none

/-- The way to cut tokens that takes any shape. -/
noncomputable def Cutting.any : Cutting where
  cut := someShape
  sound := by
    intro kind token shape found
    unfold someShape at found
    split at found
    · rename_i h
      cases found
      exact h.choose_spec
    · cases found
  complete := by
    intro token shape matched
    rw [someShape, dif_pos ⟨shape, matched, rfl⟩]
    rfl

/-- The first shape that is found. -/
def Order.first (order : Order) (cutting : Cutting) (token : List Char) : Option Shape :=
  order.kinds.findSome? fun kind => cutting.cut kind token

/-- The term of the first shape that is found. -/
def readBy (order : Order) (cutting : Cutting) (token : List Char) : Except Error Term :=
  match order.first cutting token with
  | some shape => shape.answer
  | none => .error (.unknownTerm (String.ofList token))

/-- The record of a text whose terms are tried in this order, and cut in this way. -/
def parseBy (order : Order) (cutting : Cutting) (text : String) : Except Error Record :=
  if isPolicy text then
    (tokens text).foldlM (fun record token => readBy order cutting token >>= record.insert)
      (empty text)
  else .error (.notARecord text)

section Orders

variable {order : Order} {cutting : Cutting} {token : List Char} {shape : Shape}

theorem Order.matches_of_first (h : order.first cutting token = some shape) :
    shape.Matches token := by
  obtain ⟨kind, -, found⟩ := List.exists_of_findSome?_eq_some h
  exact (cutting.sound found).1

/-- What is found first is not outranked. -/
theorem Order.not_outranks_of_first (h : order.first cutting token = some shape) {shape' : Shape}
    (matched : shape'.Matches token) : ¬ shape'.Outranks shape := by
  intro outranks
  obtain ⟨before, kind, behind, kinds, found, unfound⟩ := List.findSome?_eq_some_iff.mp h
  -- what is outranked has no meaning, so the kinds with a meaning were tried before
  have unknown : shape.kind = "unknown" := by
    cases outranks with | modifier ranks => cases ranks <;> rfl
  obtain rfl : "unknown" = kind := unknown.symm.trans (cutting.sound found).2
  have meant := order.meant_first before behind kinds
  have tried : shape'.kind ∈ before := by
    cases outranks with | modifier ranks => ?_
    cases ranks with
    | redirect => exact meant.1
    | explanation => exact meant.2
  have complete := cutting.complete matched
  rw [unfound _ tried] at complete
  cases complete

theorem Order.not_matches_of_first (h : order.first cutting token = none) :
    ¬ shape.Matches token := by
  intro matched
  have complete := cutting.complete matched
  rw [List.findSome?_eq_none_iff.mp h _ (order.complete shape)] at complete
  cases complete

/-- A token is read in the same way in all orders. -/
theorem readBy_eq (order : Order) (cutting : Cutting) : readBy order cutting = Term.read := by
  funext token
  rw [readBy]
  split
  · rename_i shape found
    exact ((order.matches_of_first found).read_eq
      fun shape' matched => order.not_outranks_of_first found matched).symm
  · rename_i found
    exact (Shape.read_of_not_matches fun shape => order.not_matches_of_first found).symm

end Orders

/-- A token has one shape: one kind of term, one qualifier or none, and one choice of parts. The
only exception are modifiers with a meaning, whose text is also that of one without. So whatever the
order is in which the kinds of terms are tried, the modifiers with a meaning before those without,
and however their parts are found, what is made of a text is the same. -/
theorem parse_unambiguous :
    (∀ (token : List Char) (shape shape' : Shape), shape.Matches token → shape'.Matches token →
      shape = shape' ∨ shape.Outranks shape' ∨ shape'.Outranks shape) ∧
    Nonempty Order ∧ Nonempty Cutting ∧
    ∀ (order : Order) (cutting : Cutting) (text : String),
      parseBy order cutting text = parse text := by
  refine ⟨fun token shape shape' h h' => h.unique_or_outranks h', ⟨.standard⟩, ⟨.any⟩,
    fun order cutting text => ?_⟩
  rw [parseBy, readBy_eq, parse]

end SenderPolicy.Record
