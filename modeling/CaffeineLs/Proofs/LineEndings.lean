/-
Module: CaffeineLs.Proofs.LineEndings
Purpose: Normalizing the line endings of a text replaces every `\r\n` and nothing else.
Trusted boundary: none
Main exports: Compaction.run_seen, normalize_bytes, normalize_intoBytes
-/
import CaffeineLs.Lib.PairReplacement
import CaffeineLs.Server.LineEndings

namespace CaffeineLs.Server

open Splitting PairReplacement SourceText OpenDocuments

namespace LineEndings

/-- The text with every `\r\n` replaced by `\n`. -/
def unixLines (text : Text) : Text := replacePairs '\r' '\n' text

/-! ### The loop -/

namespace Compaction

/-- The bytes that are not looked at yet. -/
def rest (c : Compaction) : Bytes := c.tail.drop c.gapLen

/-- What the loop ends with: what is in place, and the rest without its pairs. -/
def outcome (c : Compaction) : Bytes := c.front ++ replacePairs 13 10 c.rest

/-- The gap is a part of the slice that is left. -/
structure Wf (c : Compaction) : Prop where
  gap : c.gapLen ≤ c.tail.length

/-- Moving the bytes in front of an occurrence puts them behind what is in place; the slice that is left
begins at the gap again. -/
theorem copyWithin_gap (c : Compaction) {idx : Nat} (low : c.gapLen ≤ idx)
    (high : idx ≤ c.tail.length) :
    copyWithin c.tail c.gapLen idx =
      some (c.rest.take (idx - c.gapLen) ++ c.tail.drop (idx - c.gapLen)) := by
  rw [copyWithin, if_pos ⟨low, high⟩, rest, List.drop_take]

/-- A round that finds a pair goes on with fewer bytes to look at, towards the same outcome. -/
theorem round_found {c : Compaction} (wf : c.Wf) {i : Nat} (found : findInfix crlf c.rest = some i) :
    ∃ next, c.round = some (.inl next) ∧ next.Wf ∧ next.crlfSeen = true ∧
      next.rest.length < c.rest.length ∧ next.outcome = c.outcome := by
  obtain ⟨front, back, shape, length, replaced⟩ := replacePairs_of_find found
  have restLength : c.rest.length = c.tail.length - c.gapLen := List.length_drop
  have shapeLength := congrArg List.length shape
  simp only [List.length_append, List.length_cons] at shapeLength
  have gap := wf.gap
  have low : c.gapLen ≤ i + c.gapLen := Nat.le_add_left _ _
  have moved := copyWithin_gap c low (by omega)
  have taken : c.rest.take i = front := by
    rw [shape, ← length, List.take_left]
  rw [Nat.add_sub_cancel, taken] at moved
  let next : Compaction := ⟨c.front ++ front, c.tail.drop i, c.gapLen + 1, true⟩
  have behind : next.rest = 10 :: back := by
    have dropped : c.rest.drop (i + 1) = 10 :: back := by
      rw [shape, ← length, ← List.drop_drop, List.drop_left]
      rfl
    calc next.rest = (c.tail.drop i).drop (c.gapLen + 1) := rfl
      _ = c.rest.drop (i + 1) := by
        rw [rest, List.drop_drop, List.drop_drop, Nat.add_left_comm i]
      _ = 10 :: back := dropped
  have goesOn : c.round = some (.inl next) := by
    have longer : (c.tail.drop i).length ≠ c.gapLen := by
      rw [List.length_drop]
      omega
    have looked : findInfix crlf (c.tail.drop c.gapLen) = some i := found
    rw [round, if_pos gap, looked]
    simp only [reduceCtorEq, false_and, if_false, Nat.add_sub_cancel, moved, Option.map_some]
    rw [← length, List.take_left, List.drop_left, length, if_neg longer]
  refine ⟨next, goesOn, ⟨?_⟩, rfl, ?_, ?_⟩
  · show c.gapLen + 1 ≤ (c.tail.drop i).length
    rw [List.length_drop]
    omega
  · rw [behind, List.length_cons]
    omega
  · have plain : ¬ [(13 : UInt8), 10] <+: 10 :: back := by simp
    rw [outcome, outcome, behind, replaced, replacePairs_cons plain]
    exact List.append_assoc _ _ _

/-- The round after the last pair ends the loop. -/
theorem round_last {c : Compaction} (wf : c.Wf) (seen : c.crlfSeen = true)
    (none_ : findInfix crlf c.rest = none) : c.round = some (.inr (c.outcome, .dos)) := by
  have free := (findInfix_pair_eq_none_iff (a := (13 : UInt8)) (b := 10) c.rest).mp none_
  have gap := wf.gap
  have moved := copyWithin_gap c gap (Nat.le_refl _)
  have restLength : c.rest.length = c.tail.length - c.gapLen := List.length_drop
  rw [← restLength, List.take_length] at moved
  have looked : findInfix crlf (c.tail.drop c.gapLen) = none := none_
  have left : (c.tail.drop c.rest.length).length = c.gapLen := by
    rw [List.length_drop]
    omega
  rw [round, if_pos gap, looked, seen]
  simp only [Bool.true_eq_false, and_false, if_false, ← restLength, moved, Option.map_some]
  rw [List.take_left, List.drop_left, if_pos left, outcome, (replacePairs_eq_self_iff _).mpr free]
  congr 3
  rw [List.take_append_of_le_length, List.take_of_length_le] <;>
    (simp only [List.length_append, left]; omega)

/-- A loop that has seen a pair ends with the outcome of its state. -/
theorem run_seen {c : Compaction} (wf : c.Wf) (seen : c.crlfSeen = true) {fuel : Nat}
    (enough : c.rest.length < fuel) : c.run fuel = some (c.outcome, .dos) := by
  induction fuel generalizing c with
  | zero => exact absurd enough (Nat.not_lt_zero _)
  | succ fuel ih =>
      rw [run]
      cases found : findInfix crlf c.rest with
      | none => rw [round_last wf seen found]
      | some i =>
          obtain ⟨next, goesOn, wf', seen', fewer, same⟩ := round_found wf found
          rw [goesOn, ← same]
          exact ih wf' seen' (by omega)

end Compaction

/-- The bytes of the result, and what is reported. -/
theorem normalize_bytes (src : Bytes) :
    ∃ endings, normalize src = some (replacePairs 13 10 src, endings) ∧
      (endings = .dos ↔ [13, 10] <:+: src) := by
  let start : Compaction := ⟨[], src, 0, false⟩
  have wf : start.Wf := ⟨Nat.zero_le _⟩
  have unfolded : normalize src = start.run (src.length + 1) := rfl
  have none_iff : findInfix crlf src = none ↔ ¬ [(13 : UInt8), 10] <:+: src :=
    findInfix_pair_eq_none_iff src
  rw [unfolded, Compaction.run]
  cases found : findInfix crlf src with
  | none =>
      have free := none_iff.mp found
      have ends : start.round = some (.inr (src, .unix)) := by
        rw [Compaction.round, if_pos wf.gap, if_pos ⟨found, rfl⟩]
        rfl
      refine ⟨.unix, ?_, by simp [free]⟩
      rw [ends, (replacePairs_eq_self_iff _).mpr free]
  | some i =>
      have pair : [(13 : UInt8), 10] <:+: src := by
        by_contra free
        rw [none_iff.mpr free] at found
        cases found
      obtain ⟨next, goesOn, wf', seen', fewer, same⟩ := Compaction.round_found wf found
      have ended := Compaction.run_seen wf' seen' fewer
      refine ⟨.dos, ?_, by simp [pair]⟩
      rw [goesOn]
      rw [same] at ended
      exact ended

/-! ### Texts -/

/-- A byte below `0x80` is the code of its own character. -/
theorem utf8EncodeChar_ascii {c : Char} {byte : UInt8} (ascii : byte.toNat < 128)
    (member : byte ∈ String.utf8EncodeChar c) : c.toNat = byte.toNat := by
  have value : c.toNat = c.val.toNat := rfl
  simp only [String.utf8EncodeChar] at member
  split at member
  case isTrue =>
    rw [List.mem_singleton] at member
    rw [member, UInt8.toNat_ofNat', value]
    omega
  split at member
  case isTrue =>
    simp only [List.mem_cons, List.not_mem_nil, or_false] at member
    rcases member with same | same <;> (rw [same, UInt8.toNat_ofNat'] at ascii; omega)
  split at member
  case isTrue =>
    simp only [List.mem_cons, List.not_mem_nil, or_false] at member
    rcases member with same | same | same <;> (rw [same, UInt8.toNat_ofNat'] at ascii; omega)
  case isFalse =>
    simp only [List.mem_cons, List.not_mem_nil, or_false] at member
    rcases member with same | same | same | same <;>
      (rw [same, UInt8.toNat_ofNat'] at ascii; omega)

theorem char_eq_of_toNat {c d : Char} (same : c.toNat = d.toNat) : c = d :=
  Char.ext (UInt32.toNat_inj.mp same)

/-- The codes of the two characters stand in no other code. -/
theorem intoBytes_marks : Marks String.utf8EncodeChar '\r' '\n' 13 10 where
  first := rfl
  second := rfl
  onlyFirst _ member := char_eq_of_toNat (utf8EncodeChar_ascii (by decide) member)
  onlySecond _ member := char_eq_of_toNat (utf8EncodeChar_ascii (by decide) member)
  some_ _ := String.utf8EncodeChar_ne_nil

/-- Of a text every `\r\n` is replaced by `\n` and nothing else is changed, so that the result is a text;
`Dos` is reported just if there is a pair. Normalizing the result changes it just if a `\r` stood in front
of a pair. -/
theorem normalize_intoBytes (text : Text) :
    (∃ endings, normalize (intoBytes text) = some (intoBytes (unixLines text), endings) ∧
        (endings = .dos ↔ ['\r', '\n'] <:+: text)) ∧
      ∃ again endings, normalize (intoBytes (unixLines text)) = some (again, endings) ∧
        (again = intoBytes (unixLines text) ↔ ¬ ['\r', '\r', '\n'] <:+: text) := by
  have replaced (text : Text) : replacePairs 13 10 (intoBytes text) = intoBytes (unixLines text) :=
    replacePairs_flatMap intoBytes_marks text
  have pairs (text : Text) : [13, 10] <:+: intoBytes text ↔ ['\r', '\n'] <:+: text :=
    pair_infix_flatMap_iff intoBytes_marks text
  constructor
  · obtain ⟨endings, normalized, reported⟩ := normalize_bytes (intoBytes text)
    rw [replaced] at normalized
    exact ⟨endings, normalized, reported.trans (pairs text)⟩
  · obtain ⟨endings, normalized, _⟩ := normalize_bytes (intoBytes (unixLines text))
    refine ⟨_, endings, normalized, ?_⟩
    rw [replacePairs_eq_self_iff, pairs, unixLines, pair_infix_replacePairs_iff _ (by decide)]

example : normalize (intoBytes ['a', '\r', '\n', 'b', '\r', '\r', '\n']) =
    some (intoBytes ['a', '\n', 'b', '\r', '\n'], .dos) := by rfl

end LineEndings

end CaffeineLs.Server
