import Mathlib.Data.List.Forall2
import Mathlib.Data.List.Pairwise
import SenderPolicy.Dns.Resolver
import SenderPolicy.Proofs.Text.Octets

/-!
# What a resolver makes of responses

Exchanges are handed on by preference, and those of equal preference in the order of the server. A
text record is handed on as its character-strings in a row, each of them read by itself. A server
may cut the octets of a text wherever it likes, and where it cuts inside a character neither of the
two strings is read as it was written.

## Main definitions

* `Exchange.Ranked`: exchanges come by preference, and are those of a response

## Main results

* `Exchange.ranked_sorted`: exchanges are sorted by preference
* `textOf_eq_iff`: which character-strings make up a text
* `Resolver.texts_whole_iff`: the texts of records are answered if no character is cut apart
-/

namespace SenderPolicy

/-! ## Names with their final dot -/

namespace Text

/-- A name without its final dot. -/
theorem trimDots_append_dot {name : String} (h : name.toList.getLast? ≠ some '.') :
    trimDots (name ++ ".") = name := by
  have kept : name.toList.reverse.dropWhile (fun c => decide (c = '.')) = name.toList.reverse := by
    rw [List.getLast?_eq_head?_reverse] at h
    cases hr : name.toList.reverse with
    | nil => rfl
    | cons c cs =>
      rw [hr] at h
      exact List.dropWhile_cons_of_neg (by simpa using h)
  rw [← String.toList_inj, toList_trimDots, String.toList_append, dropTrailing]
  simp [kept]

end Text

namespace Dns

open Text

/-! ## Exchanges by preference -/

namespace Exchange

variable {exchanges ranked ranked' : List Exchange}

/-- Exchanges come by preference, and are those of a response: none is lost or doubled, and those of
equal preference come in the order of the response. -/
structure Ranked (exchanges ranked : List Exchange) : Prop where
  perm : ranked.Perm exchanges
  ordered : ranked.Pairwise fun e f => e.preference ≤ f.preference
  stable : ∀ p, ranked.filter (·.preference = p) = exchanges.filter (·.preference = p)

/-- Sorting leaves exchanges of equal preference in the order they came in. -/
theorem filter_sorted (exchanges : List Exchange) (p : Nat) :
    (sorted exchanges).filter (·.preference = p) = exchanges.filter (·.preference = p) := by
  have equal : (exchanges.filter (·.preference = p)).Pairwise fun e f => precedes e f = true := by
    refine List.pairwise_of_forall_mem_list fun e he f hf => ?_
    rw [List.mem_filter, decide_eq_true_eq] at he hf
    exact decide_eq_true (Nat.le_of_eq (he.2.trans hf.2.symm))
  -- they are in order among themselves, so they are found in the sorted list as they came
  have kept : (exchanges.filter (·.preference = p)).Sublist (sorted exchanges) :=
    List.sublist_mergeSort precedes_trans precedes_total equal List.filter_sublist
  have inside := kept.filter (·.preference = p)
  simp only [List.filter_filter, Bool.and_self] at inside
  exact (inside.eq_of_length ((sorted_perm exchanges).filter _).length_eq.symm).symm

theorem ranked_sorted (exchanges : List Exchange) : Ranked exchanges (sorted exchanges) where
  perm := sorted_perm exchanges
  ordered := pairwise_sorted exchanges
  stable := filter_sorted exchanges

end Exchange

/-! ## Texts from character-strings -/

theorem toList_textOf (strings : List (List UInt8)) :
    (textOf strings).toList = strings.flatMap (decodeFrom none) := by
  simp [textOf, decodeLossy]

/-- Character-strings whose octets are those of a text make up the text if none of them is cut
inside a character. -/
theorem textOf_eq_iff {strings : List (List UInt8)} {text : String}
    (h : strings.flatten = encode text.toList) :
    textOf strings = text ↔ ∀ octets ∈ strings, ∃ part, octets = encode part := by
  rw [← String.toList_inj, toList_textOf, flatMap_decodeFrom_iff h]

theorem map_textOf_eq_iff {values : List (List (List UInt8))} {texts : List String}
    (h : List.Forall₂ (fun strings text => strings.flatten = encode text.toList) values texts) :
    values.map textOf = texts ↔
      ∀ strings ∈ values, ∀ octets ∈ strings, ∃ part, octets = encode part := by
  induction h with
  | nil => simp
  | cons first later ih =>
    rw [List.map_cons, List.cons.injEq, textOf_eq_iff first, ih, List.forall_mem_cons]

namespace Resolver

variable {respond : String → RecordType → Response} {host : String}

/-- The answer that is handed on for a type that is asked for. -/
theorem service_eq {type : RecordType} (h : type ≠ .spf) :
    service respond ⟨host, type⟩ = (respond (rooted host) type).answer ⟨host, type⟩ :=
  if_neg h

/-- Exchanges are answered by preference, each by its name. -/
theorem service_exchanges {values : List Exchange}
    (responds : respond (rooted host) .mx = .exchanges values) :
    ∃ ranked, Exchange.Ranked values ranked ∧
      service respond ⟨host, .mx⟩ = .ok (ranked.map fun e => trimDots e.name) := by
  refine ⟨Exchange.sorted values, Exchange.ranked_sorted values, ?_⟩
  rw [service_eq (by decide), responds]
  rfl

/-- However the octets of texts are cut into the character-strings of records, the answer is the
texts if no cut lies inside a character, and only then. -/
theorem texts_whole_iff {values : List (List (List UInt8))} {texts : List String}
    (responds : respond (rooted host) .txt = .texts values)
    (cut : List.Forall₂ (fun strings text => strings.flatten = encode text.toList) values texts) :
    service respond ⟨host, .txt⟩ = .ok texts ↔
      ∀ strings ∈ values, ∀ octets ∈ strings, ∃ part, octets = encode part := by
  rw [service_eq (by decide), responds, ← map_textOf_eq_iff cut, Response.answer, Except.ok.injEq]

/-- Strings that are cut between characters, one of them empty. -/
theorem texts_whole_of_empty_string :
    service (fun _ _ => .texts [[[0xC3, 0xA9], [], [0x61]]]) ⟨"b", .txt⟩ = .ok ["éa"] := by
  have cut : List.Forall₂ (fun strings text => strings.flatten = encode text.toList)
      [[[0xC3, 0xA9], [], [0x61]]] ["éa"] := .cons (by decide) .nil
  refine (texts_whole_iff rfl cut).mpr ?_
  simp only [List.forall_mem_cons]
  exact ⟨⟨⟨['é'], rfl⟩, ⟨[], rfl⟩, ⟨['a'], rfl⟩, nofun⟩, nofun⟩

/-- The octets of one character in two strings are read as two replacement characters. -/
theorem character_cut_apart :
    List.flatten [[0xC3], [0xA9]] = encode "é".toList ∧
      service (fun _ _ => .texts [[[0xC3], [0xA9]]]) ⟨"b", .txt⟩ = .ok ["\ufffd\ufffd"] ∧
      service (fun _ _ => .texts [[[0xC3], [0xA9]]]) ⟨"b", .txt⟩ ≠ .ok ["é"] := by
  decide

end Resolver

end Dns

end SenderPolicy
