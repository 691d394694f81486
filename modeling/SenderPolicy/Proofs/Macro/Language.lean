import Mathlib.Data.List.Forall2
import SenderPolicy.Proofs.Domain.Shortening
import SenderPolicy.Proofs.Macro.Elements

/-!
# The macro language

A template stands for what its elements yield, one after the other; a domain is shortened until it
fits into a lookup, and an explanation is made up of its pieces between spaces. The first element
that yields no text decides why a template stands for nothing. The expansion of a template is
exactly what the language says.

## Main definitions

* `Denotes`, `Fails`: what a template stands for, or why it stands for nothing

## Main results

* `mapM_eq_ok_iff`: what a list comes to
* `expand_eq_iff`: the expansion of a template
-/

namespace SenderPolicy.Macro

open Text

/-- A list comes to something when all of its members do. -/
theorem mapM_eq_ok_iff {α β ε : Type} {f : α → Except ε β} {xs : List α} {ys : List β} :
    xs.mapM f = .ok ys ↔ List.Forall₂ (fun x y => f x = .ok y) xs ys := by
  induction xs generalizing ys with
  | nil => cases ys <;> simp [pure, Except.pure]
  | cons x xs ih =>
    rw [List.mapM_cons]
    cases hx : f x with
    | error e => cases ys <;> simp [bind, Except.bind, hx]
    | ok y =>
      cases hxs : xs.mapM f with
      | error e => cases ys <;> simp [bind, Except.bind, ← ih, hxs, hx]
      | ok ys' => cases ys <;> simp [bind, Except.bind, pure, Except.pure, ← ih, hxs, hx]

/-- The elements of a piece yield the texts that make it up. -/
def PieceDenotes (values : Values) (localNames : List String) (site : Site) (piece text : String) :
    Prop :=
  ∃ es texts, Reads piece.toList es ∧ List.Forall₂ (Yields values localNames site) es texts ∧
    text = join "" texts

/-- The first element of a piece that yields no text decides why the piece has none. -/
def PieceFails (values : Values) (localNames : List String) (site : Site) (piece : String)
    (obstacle : Obstacle) : Prop :=
  ∃ before e after, Reads piece.toList (before ++ e :: after) ∧
    (∀ x ∈ before, ∃ text, Yields values localNames site x text) ∧
    Obstructs values localNames site piece e obstacle

/-- The pieces of an explanation: what stands between its spaces and is not empty. -/
def piecesOf (template : String) : List String :=
  (splitOn ' ' template).filter (· ≠ "")

/-- What a template stands for: a domain fits into a lookup, and the pieces of an explanation are
joined by single spaces. -/
def Denotes (values : Values) (localNames : List String) : Site → String → String → Prop
  | .domain, template, text =>
    ∃ whole, PieceDenotes values localNames .domain template whole ∧
      Domain.Shortened whole.toList text.toList
  | .explanation, template, text =>
    ∃ texts, List.Forall₂ (PieceDenotes values localNames .explanation) (piecesOf template) texts ∧
      text = join " " texts

/-- Why a template stands for nothing: the first obstacle from left to right. -/
def Fails (values : Values) (localNames : List String) : Site → String → Obstacle → Prop
  | .domain, template, obstacle => PieceFails values localNames .domain template obstacle
  | .explanation, template, obstacle =>
    ∃ before piece after, piecesOf template = before ++ piece :: after ∧
      (∀ x ∈ before, ∃ text, PieceDenotes values localNames .explanation x text) ∧
      PieceFails values localNames .explanation piece obstacle

section Templates

variable {values : Values} {localNames : List String} {site : Site} {piece template text : String}
  {obstacle : Obstacle}

theorem expandPiece_eq_ok_iff : expandPiece values localNames site piece = .ok text ↔
    PieceDenotes values localNames site piece text := by
  rw [expandPiece, Error.bind_eq_ok_iff]
  simp only [PieceDenotes, mapM_eq_ok_iff, expandElement_eq_ok_iff]
  constructor
  · rintro ⟨texts, h, ⟨⟩⟩
    exact ⟨_, texts, reads_iff.mpr rfl, h, rfl⟩
  · rintro ⟨es, texts, reads, h, rfl⟩
    rw [← reads_iff.mp reads] at h
    exact ⟨texts, h, rfl⟩

theorem expandPiece_eq_error_iff :
    expandPiece values localNames site piece = .error obstacle ↔
      PieceFails values localNames site piece obstacle := by
  rw [expandPiece, Error.bind_eq_error_iff, or_iff_left (by rintro ⟨texts, -, ⟨⟩⟩)]
  simp only [PieceFails, mapM_eq_error_iff, expandElement_eq_ok_iff, expandElement_eq_error_iff,
    reads_iff]

/-- A piece stands for something when each of its elements yields a text. -/
theorem exists_expandPiece_iff : (∃ text, expandPiece values localNames site piece = .ok text) ↔
    ∀ e ∈ elements piece.toList, ∃ text, Yields values localNames site e text := by
  constructor
  · rintro ⟨text, h⟩
    obtain ⟨es, texts, reads, yields, -⟩ := expandPiece_eq_ok_iff.mp h
    rw [reads_iff.mp reads]
    clear reads
    induction yields with
    | nil => exact nofun
    | cons h _ ih => exact List.forall_mem_cons.mpr ⟨⟨_, h⟩, ih⟩
  · intro yields
    cases h : expandPiece values localNames site piece with
    | ok text => exact ⟨text, rfl⟩
    | error obstacle =>
      obtain ⟨e, he, obstructed⟩ := exists_of_expandPiece_error h
      obtain ⟨text, hy⟩ := yields e he
      rw [expandElement_eq_ok_iff.mpr hy] at obstructed
      cases obstructed

/-- What a template is expanded to is what the language says: the text of its elements if all of them
yield one, and otherwise the obstacle of the first that does not. What refuses a template is an error
of the policy. -/
theorem expand_eq_iff (values : Values) (localNames : List String) (site : Site)
    (template : String) :
    (∀ text, expand values localNames site template = .ok text ↔
      Denotes values localNames site template text) ∧
    (∀ obstacle, expand values localNames site template = .error obstacle ↔
      Fails values localNames site template obstacle) ∧
    ∀ cause, Fails values localNames site template (.refused cause) →
      cause.result = .permError := by
  have denotes (text : String) : expand values localNames site template = .ok text ↔
      Denotes values localNames site template text := by
    cases site with
    | domain =>
      simp only [expand, Denotes, Error.map_eq_ok_iff, expandPiece_eq_ok_iff, Domain.shorten_eq_iff]
    | explanation =>
      rw [expand, Error.bind_eq_ok_iff]
      simp only [Denotes, piecesOf, mapM_eq_ok_iff, expandPiece_eq_ok_iff]
      constructor
      · rintro ⟨texts, h, ⟨⟩⟩
        exact ⟨texts, h, rfl⟩
      · rintro ⟨texts, h, rfl⟩
        exact ⟨texts, h, rfl⟩
  have fails (obstacle : Obstacle) : expand values localNames site template = .error obstacle ↔
      Fails values localNames site template obstacle := by
    cases site with
    | domain => simp only [expand, Fails, Error.map_eq_error_iff, expandPiece_eq_error_iff]
    | explanation =>
      rw [expand, Error.bind_eq_error_iff, or_iff_left (by rintro ⟨texts, -, ⟨⟩⟩)]
      simp only [Fails, piecesOf, mapM_eq_error_iff, expandPiece_eq_ok_iff,
        expandPiece_eq_error_iff]
  exact ⟨denotes, fails, fun cause h => expand_refused ((fails _).mpr h)⟩

end Templates

end SenderPolicy.Macro
