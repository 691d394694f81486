import SenderPolicy.Proofs.Record.Mechanisms

/-!
# Terms are read as they are written

A token is read as a term exactly when it is written as the grammar says and its parts denote the
term. Every other token is refused for good.

The text of a modifier with a meaning is also that of a modifier without one, which has its name and
its value. It is read as the former; the latter is left with the values that are no domains, and is
refused then.

## Main definitions

* `ModifierParts.Outranks`: a modifier with a meaning comes before the one without
* `ModifierParts.answer`: the modifier of parts, or why their values are refused

## Main results

* `readModifier_eq_some_iff`, `readModifier_eq_ok_iff`: a text is read as a modifier when it is
  written as one
* `ModifierParts.Written.readMechanism`: no text is both a mechanism and a modifier
* `read_eq_ok_iff`, `result_of_read`: a token is read as the term that it is written as, or refused
-/

namespace SenderPolicy.Record

open Text Macro Error

/-! ## Modifiers -/

/-- Only `s` and `k` have other characters than ASCII letters that fold to them. -/
theorem foldedChar_eq_iff {c w : Char} (hw : w ∉ ['s', 'k', '\u017f', '\u212a']) :
    foldedChar c = w ↔ c.toLower = w := by
  simp only [List.mem_cons, List.not_mem_nil, or_false, not_or] at hw
  unfold foldedChar
  split
  · rename_i hc
    subst hc
    exact ⟨fun h => absurd h.symm hw.1, fun h => absurd h.symm hw.2.2.1⟩
  · split
    · rename_i hc
      subst hc
      exact ⟨fun h => absurd h.symm hw.2.1, fun h => absurd h.symm hw.2.2.2⟩
    · rfl

theorem map_foldedChar_eq_iff {k ws : List Char}
    (hw : (ws.all fun w => w ∉ ['s', 'k', '\u017f', '\u212a']) = true) :
    k.map foldedChar = ws ↔ k.map Char.toLower = ws := by
  -- letter by letter, for no letter of the word is one of the four
  induction k generalizing ws with
  | nil => rfl
  | cons c k ih =>
    cases ws with
    | nil => simp
    | cons w ws =>
      rw [List.all_cons, Bool.and_eq_true, decide_eq_true_eq] at hw
      rw [List.map_cons, List.map_cons, List.cons.injEq, List.cons.injEq, foldedChar_eq_iff hw.1,
        ih hw.2]

theorem keyword_redirect_iff {k : List Char} :
    Keyword "redirect" k ↔ k.map Char.toLower = "redirect".toList :=
  map_foldedChar_eq_iff rfl

theorem keyword_exp_iff {k : List Char} :
    Keyword "exp" k ↔ k.map Char.toLower = "exp".toList :=
  map_foldedChar_eq_iff rfl

/-- A text is cut in front of the first mark in it. -/
theorem cut_append_mark {mark : Char} {xs : List Char} (hx : mark ∉ xs) (ys : List Char) :
    (xs ++ mark :: ys).takeWhile (· ≠ mark) = xs ∧
      (xs ++ mark :: ys).dropWhile (· ≠ mark) = mark :: ys := by
  have run : ∀ c ∈ xs, decide (c ≠ mark) = true := by
    intro c hc
    rw [decide_eq_true_eq]
    rintro rfl
    exact hx hc
  have stop : ∀ c ∈ (mark :: ys).head?, decide (c ≠ mark) = false := by simp
  exact ⟨takeWhile_append_of_stop run stop, dropWhile_append_of_stop run stop⟩

theorem readModifier_append {name value : List Char} (hn : '=' ∉ name) :
    readModifier (name ++ '=' :: value) = ofName name value := by
  obtain ⟨front, behind⟩ := cut_append_mark hn value
  rw [readModifier, behind, front]

theorem exists_of_readModifier {cs : List Char} {answer : Except Error Modifier}
    (h : readModifier cs = some answer) :
    ∃ name value, cs = name ++ '=' :: value ∧ ofName name value = some answer := by
  have whole := List.takeWhile_append_dropWhile (p := (· ≠ '=')) (l := cs)
  have stop := List.head?_dropWhile_not (· ≠ '=') cs
  unfold readModifier at h
  split at h
  · cases h
  · rename_i c value hd
    rw [hd] at whole stop
    have hc : c = '=' := by simpa using stop
    rw [hc] at whole
    exact ⟨_, value, whole.symm, h⟩

theorem isModifierName_chars {name : List Char} (h : isModifierName name = true) :
    ∀ c ∈ name, c ≠ '=' ∧ endsKeyword c = false := by
  have ascii {c : Char} (hc : c.isAlphanum = true) : c ≠ '=' ∧ endsKeyword c = false :=
    of_ascii (P := fun c => c.isAlphanum = true → c ≠ '=' ∧ endsKeyword c = false) (by decide)
      (ascii_of_isAlphanum hc) hc
  cases name with
  | nil => cases h
  | cons first rest =>
    simp only [isModifierName, Bool.and_eq_true, List.all_eq_true, Bool.or_eq_true,
      decide_eq_true_eq] at h
    intro c hc
    rcases List.mem_cons.mp hc with rfl | hc
    · exact ascii (isAlphanum_of_isAlpha h.1)
    · rcases h.2 c hc with ((hc | rfl) | rfl) | rfl
      · exact ascii hc
      all_goals decide

/-- A modifier with a meaning comes before the one without that has its name and its value. -/
inductive ModifierParts.Outranks : ModifierParts → ModifierParts → Prop
  | redirect {name domain : List Char} (hk : Keyword "redirect" name) :
      Outranks (.redirect domain) (.unknown name domain)
  | explanation {name domain : List Char} (hk : Keyword "exp" name) :
      Outranks (.explanation domain) (.unknown name domain)

instance (name : List Char) : Decidable (IsReserved name) :=
  inferInstanceAs (Decidable (_ ∨ _))

/-- The modifier of parts, or why their values are refused. -/
def ModifierParts.answer : ModifierParts → Except Error Modifier
  | redirect domain => .ok (.redirect (String.ofList domain))
  | explanation domain => .ok (.explanation (String.ofList domain))
  | unknown name value =>
    if IsReserved name then .error (.malformedModifier (String.ofList name))
    else .ok (.unknown (String.ofList name) (String.ofList value))

theorem isReserved_iff {name : List Char} :
    IsReserved name ↔ Keyword "redirect" name ∨ Keyword "exp" name :=
  or_congr keyword_redirect_iff.symm keyword_exp_iff.symm

/-- A modifier without a meaning is outranked if its name has one and its value is a domain. -/
theorem ModifierParts.outranked_iff {name value : List Char} :
    (∃ parts : ModifierParts, parts.Written (name ++ '=' :: value) ∧
      parts.Outranks (.unknown name value)) ↔ IsReserved name ∧ DomainSpec value := by
  constructor
  · rintro ⟨parts, hw, ho⟩
    generalize name ++ '=' :: value = cs at hw
    cases ho with
    | redirect hk => cases hw with | redirect _ hd => exact ⟨isReserved_iff.mpr (.inl hk), hd⟩
    | explanation hk =>
      cases hw with | explanation _ hd => exact ⟨isReserved_iff.mpr (.inr hk), hd⟩
  · rintro ⟨hr, hd⟩
    rcases isReserved_iff.mp hr with hk | hk
    · exact ⟨_, .redirect hk hd, .redirect hk⟩
    · exact ⟨_, .explanation hk hd, .explanation hk⟩

/-- A name and a value that no modifier with a meaning is written with. -/
theorem ofName_unknown {name value : List Char} (h : ¬ (IsReserved name ∧ DomainSpec value)) :
    ofName name value = if isModifierName name ∧ isMacroString value then
      some (ModifierParts.answer (.unknown name value)) else none := by
  have unredirected : ¬ (name.map Char.toLower = "redirect".toList ∧ isDomainSpec value) :=
    fun hc => h ⟨.inl hc.1, isDomainSpec_iff.mp hc.2⟩
  have unexplained : ¬ (name.map Char.toLower = "exp".toList ∧ isDomainSpec value) :=
    fun hc => h ⟨.inr hc.1, isDomainSpec_iff.mp hc.2⟩
  rw [ofName, if_neg unredirected, if_neg unexplained, ModifierParts.answer, apply_ite some]
  rfl

/-- A text is read as a modifier when it is written as one that no other outranks. -/
theorem readModifier_eq_some_iff {cs : List Char} {answer : Except Error Modifier} :
    readModifier cs = some answer ↔ ∃ parts : ModifierParts, parts.Written cs ∧
      (∀ parts' : ModifierParts, parts'.Written cs → ¬ parts'.Outranks parts) ∧
      parts.answer = answer := by
  constructor
  · intro hr
    obtain ⟨name, value, rfl, h⟩ := exists_of_readModifier hr
    by_cases meant : IsReserved name ∧ DomainSpec value
    · obtain ⟨hk, hd⟩ := meant
      rcases hk with hk | hk
      · rw [ofName, if_pos ⟨hk, isDomainSpec_iff.mpr hd⟩] at h
        cases h
        exact ⟨_, .redirect (keyword_redirect_iff.mpr hk) hd, nofun, rfl⟩
      · simp only [ofName, hk, isDomainSpec_iff.mpr hd] at h
        cases h
        exact ⟨_, .explanation (keyword_exp_iff.mpr hk) hd, nofun, rfl⟩
    · rw [ofName_unknown meant, Option.ite_none_right_eq_some] at h
      obtain ⟨⟨hn, hv⟩, ⟨⟩⟩ := h
      exact ⟨_, .unknown hn (isMacroString_iff.mp hv),
        fun parts' hw ho => meant (ModifierParts.outranked_iff.mp ⟨parts', hw, ho⟩), rfl⟩
  · rintro ⟨parts, hw, first, rfl⟩
    cases hw with
    | redirect hk hs =>
      rw [readModifier_append (hk.mark_not_mem (by decide) (by decide)), ofName]
      exact if_pos ⟨keyword_redirect_iff.mp hk, isDomainSpec_iff.mpr hs⟩
    | explanation hk hs =>
      rw [readModifier_append (hk.mark_not_mem (by decide) (by decide)), ofName]
      simp only [keyword_exp_iff.mp hk, isDomainSpec_iff.mpr hs]
      rfl
    | unknown hn hs =>
      have meant := ModifierParts.outranked_iff.not.mp fun ⟨parts', hw, ho⟩ => first parts' hw ho
      rw [readModifier_append fun hm => (isModifierName_chars hn _ hm).1 rfl, ofName_unknown meant,
        if_pos ⟨hn, isMacroString_iff.mpr hs⟩]

/-- Parts are answered with what they denote. -/
theorem ModifierParts.answer_eq_ok_iff {parts : ModifierParts} {m : Modifier} :
    parts.answer = .ok m ↔ parts.Denotes m := by
  constructor
  · intro h
    cases parts with
    | redirect domain => cases h; exact .redirect
    | explanation domain => cases h; exact .explanation
    | unknown name value =>
      rw [answer] at h
      split at h
      · cases h
      · rename_i unreserved
        cases h
        exact .unknown unreserved
  · intro h
    cases h with
    | unknown unreserved => exact if_neg unreserved
    | _ => rfl

/-- A text is read as a modifier when it is written as one. -/
theorem readModifier_eq_ok_iff {cs : List Char} {m : Modifier} :
    readModifier cs = some (.ok m) ↔
      ∃ parts : ModifierParts, parts.Written cs ∧ parts.Denotes m := by
  simp only [readModifier_eq_some_iff, ModifierParts.answer_eq_ok_iff]
  constructor
  · rintro ⟨parts, hw, -, hd⟩
    exact ⟨parts, hw, hd⟩
  · rintro ⟨parts, hw, hd⟩
    refine ⟨parts, hw, fun parts' _ ho => ?_, hd⟩
    -- what denotes a modifier has no reserved name, if it is one without a meaning
    cases ho with
    | redirect hk =>
      cases hd with | unknown unreserved => exact unreserved (isReserved_iff.mpr (.inl hk))
    | explanation hk =>
      cases hd with | unknown unreserved => exact unreserved (isReserved_iff.mpr (.inr hk))

theorem result_of_readModifier {cs : List Char} {cause : Error}
    (hr : readModifier cs = some (.error cause)) : cause.result = .permError := by
  obtain ⟨parts, -, -, ha⟩ := readModifier_eq_some_iff.mp hr
  cases parts with
  | unknown name value =>
    rw [ModifierParts.answer] at ha
    split at ha
    · cases ha
      rfl
    · cases ha
  | _ => cases ha

/-! ## Tokens -/

theorem exists_of_cutQualifier {token text : List Char} {q : Qualifier}
    (h : cutQualifier token = (q, text)) :
    q = .implied ∧ text = token ∨ token = q.symbol :: text := by
  unfold cutQualifier at h
  split at h
  · cases h
    exact .inl ⟨rfl, rfl⟩
  · split at h
    · rename_i hq
      cases h
      exact .inr (by rw [Qualifier.ofSymbol?_eq_some_iff.mp hq])
    · cases h
      exact .inl ⟨rfl, rfl⟩

theorem cutQualifier_symbol (q : Qualifier) (text : List Char) :
    cutQualifier (q.symbol :: text) = (q, text) := by
  simp only [cutQualifier, Qualifier.ofSymbol?_eq_some_iff.mpr rfl]

theorem cutQualifier_of_ne {c : Char} (h : ∀ q : Qualifier, c ≠ q.symbol) (text : List Char) :
    cutQualifier (c :: text) = (.implied, c :: text) := by
  rw [cutQualifier]
  split
  · rename_i q hq
    exact absurd (Qualifier.ofSymbol?_eq_some_iff.mp hq) (h q)
  · rfl

/-- No qualifier is cut off in front of a word. -/
theorem Keyword.cutQualifier {word : String} {k : List Char} (hk : Keyword word k)
    (hw : word ∈ words) (rest : List Char) :
    cutQualifier (k ++ rest) = (.implied, k ++ rest) := by
  cases k with
  | nil => exact absurd hk.symm (mark_not_mem_words word hw).1
  | cons c k =>
    refine cutQualifier_of_ne (fun q => ?_) _
    rintro rfl
    have mark : q.symbol ∈ marks := by cases q <;> decide
    exact hk.mark_not_mem hw mark List.mem_cons_self

theorem MechanismParts.Written.cutQualifier {text : List Char} {parts : MechanismParts}
    (h : parts.Written text) : cutQualifier text = (.implied, text) := by
  obtain ⟨word, hm, k, argument, rfl, hk, -, -⟩ := h.exists_keyword
  exact hk.cutQualifier (mem_words hm) argument

theorem ModifierParts.Written.cutQualifier {text : List Char} {parts : ModifierParts}
    (h : parts.Written text) : cutQualifier text = (.implied, text) := by
  cases h with
  | redirect hk hd => exact hk.cutQualifier (by decide) _
  | explanation hk hd => exact hk.cutQualifier (by decide) _
  | @unknown name value hn hv =>
    cases name with
    | nil => cases hn
    | cons c name =>
      -- a name starts with a letter, which no qualifier is
      rw [isModifierName, Bool.and_eq_true] at hn
      refine cutQualifier_of_ne (fun q => ?_) _
      rintro rfl
      have unalpha : q.symbol.isAlpha = false := by cases q <;> rfl
      rw [unalpha] at hn
      cases hn.1

/-- What is no keyword names no mechanism. -/
theorem mem_keywords_of_ofKeyword {word : String} {argument : List Char}
    {answer : Except Error Mechanism} (h : ofKeyword word argument = some answer) :
    word ∈ keywords := by
  unfold ofKeyword at h
  split at h
  case h_9 => cases h
  all_goals decide

/-- No text is both a mechanism and a modifier. -/
theorem ModifierParts.Written.readMechanism {text : List Char} {parts : ModifierParts}
    (h : parts.Written text) : readMechanism text = none := by
  obtain ⟨name, value, rfl, hn⟩ : ∃ name value, text = name ++ '=' :: value ∧
      ∀ c ∈ name, endsKeyword c = false := by
    cases h with
    | redirect hk hd => exact ⟨_, _, rfl, hk.endsKeyword (by decide)⟩
    | explanation hk hd => exact ⟨_, _, rfl, hk.endsKeyword (by decide)⟩
    | unknown hn hv => exact ⟨_, _, rfl, fun c hc => (isModifierName_chars hn c hc).2⟩
  rw [Option.eq_none_iff_forall_ne_some]
  intro answer hr
  have word := (mark_not_mem_words _ (mem_words (mem_keywords_of_ofKeyword hr))).2 '=' (by decide)
  -- what would be the keyword goes on behind the equals sign
  have run : ∀ c ∈ name, (!endsKeyword c) = true := fun c hc => by rw [hn c hc]; rfl
  rw [List.takeWhile_append_of_pos run, List.takeWhile_cons_of_pos rfl, String.toList_ofList]
    at word
  exact word (List.mem_map_of_mem (List.mem_append_right _ List.mem_cons_self))

/-- A token is read as the term that it is written as. -/
theorem read_eq_ok_iff {token : List Char} {term : Term} :
    Term.read token = .ok term ↔ Term.Written token term := by
  obtain ⟨q, text, hc⟩ : ∃ q text, cutQualifier token = (q, text) := ⟨_, _, rfl⟩
  constructor
  · intro h
    -- a mechanism is tried before a modifier
    simp only [Term.read, hc] at h
    split at h
    · rename_i answer _ hm
      obtain ⟨m, rfl, rfl⟩ := map_eq_ok_iff.mp h
      obtain ⟨parts, hw, ha⟩ := readMechanism_eq_some_iff.mp hm
      have hd := MechanismParts.answer_eq_ok_iff.mp ha
      rcases exists_of_cutQualifier hc with ⟨rfl, rfl⟩ | rfl
      · exact .implied hw hd
      · exact .qualified q hw hd
    · rename_i answer _ hm
      obtain ⟨m, rfl, rfl⟩ := map_eq_ok_iff.mp h
      obtain ⟨parts, hw, hd⟩ := readModifier_eq_ok_iff.mp hm
      exact .modifier hw hd
    · cases h
  · intro h
    cases h with
    | implied hw hd =>
      have hm := readMechanism_eq_some_iff.mpr ⟨_, hw, MechanismParts.answer_eq_ok_iff.mpr hd⟩
      simp only [Term.read, hw.cutQualifier, hm]
      rfl
    | qualified q hw hd =>
      have hm := readMechanism_eq_some_iff.mpr ⟨_, hw, MechanismParts.answer_eq_ok_iff.mpr hd⟩
      simp only [Term.read, cutQualifier_symbol, hm]
      rfl
    | modifier hw hd =>
      -- the text is not read as a mechanism before it is read as a modifier
      have hm := readModifier_eq_ok_iff.mpr ⟨_, hw, hd⟩
      simp only [Term.read, hw.cutQualifier, hw.readMechanism, hm]
      rfl

example : Term.Written "-A:x.%\x7bd\x7d.org/024//64".toList
    (.directive ⟨.fail, .address (some "x.%\x7bd\x7d.org") ⟨24, 64⟩⟩) :=
  read_eq_ok_iff.mp (by decide)

/-- A token that is refused is refused for good. -/
theorem result_of_read {token : List Char} {cause : Error} (h : Term.read token = .error cause) :
    cause.result = .permError := by
  simp only [Term.read] at h
  split at h
  · rename_i answer _ hm
    obtain ⟨parts, -, rfl⟩ := readMechanism_eq_some_iff.mp hm
    exact MechanismParts.result_of_answer (map_eq_error_iff.mp h)
  · rename_i answer _ hm
    rw [map_eq_error_iff.mp h] at hm
    exact result_of_readModifier hm
  · cases h
    rfl

end SenderPolicy.Record
