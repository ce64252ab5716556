/-
Module: CaffeineLs.Server.LineEndings
Purpose: The line endings of a loaded text: `\r\n` is replaced by `\n` within one buffer.
Trusted boundary: a slice out of its bounds panics; the finder returns the first occurrence
Main exports: LineEndings, Compaction, Compaction.round
-/
import CaffeineLs.Lib.Splitting
import CaffeineLs.Server.OpenDocuments

namespace CaffeineLs.Server

open Splitting

inductive LineEndings where
  | unix
  | dos
deriving DecidableEq, Repr

namespace LineEndings

/-- The bytes of `\r\n`. -/
def crlf : Bytes := [13, 10]

/-- `slice.copy_within(start..stop, 0)` -/
def copyWithin (slice : Bytes) (start stop : Nat) : Option Bytes :=
  if start ≤ stop ∧ stop ≤ slice.length then
    some ((slice.take stop).drop start ++ slice.drop (stop - start))
  else none

/-- The state of the loop: the buffer is `front` and then `tail`, the slice that is left, whose first
`gapLen` bytes are free. -/
structure Compaction where
  front : Bytes
  tail : Bytes
  gapLen : Nat
  crlfSeen : Bool

/-- A round of the loop: it goes on, or the function returns. Nothing where a slice is out of its
bounds. -/
def Compaction.round (c : Compaction) : Option (Compaction ⊕ (Bytes × LineEndings)) :=
  if c.gapLen ≤ c.tail.length then
    let found := findInfix crlf (c.tail.drop c.gapLen)
    if found = none ∧ c.crlfSeen = false then
      -- The buffer is unchanged.
      some (.inr (c.front ++ c.tail, .unix))
    else
      let idx := match found with
        | none => c.tail.length
        | some i => i + c.gapLen
      (copyWithin c.tail c.gapLen idx).map fun tail =>
        let front := c.front ++ tail.take (idx - c.gapLen)
        let rest := tail.drop (idx - c.gapLen)
        if rest.length = c.gapLen then
          let buf := front ++ rest
          .inr (buf.take (buf.length - c.gapLen), .dos)
        else .inl ⟨front, rest, c.gapLen + 1, true⟩
  else none

/-- At most that many rounds. -/
def Compaction.run : Nat → Compaction → Option (Bytes × LineEndings)
  | 0, _ => none
  | fuel + 1, c =>
      match c.round with
      | none => none
      | some (.inr result) => some result
      | some (.inl next) => next.run fuel

/-- `LineEndings::normalize`, on the bytes of the string. -/
def normalize (src : Bytes) : Option (Bytes × LineEndings) :=
  Compaction.run (src.length + 1) ⟨[], src, 0, false⟩

end LineEndings

end CaffeineLs.Server
