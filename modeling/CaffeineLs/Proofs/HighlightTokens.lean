/-
Module: CaffeineLs.Proofs.HighlightTokens
Purpose: The semantic tokens of a list of highlights decode to the parts of the highlights on their lines.
Trusted boundary: none
Main exports: position_eq, deltas_advance, tokens_of_highlights
-/
import CaffeineLs.Server.HighlightTokens
import Mathlib.Data.List.Infix

namespace CaffeineLs.Server.SemanticTokens

open SourceText TextPlaces
open Document (Position PositionEncoding WideEncoding LineCol)

attribute [local simp] cutAtLines decodeFrom kept

/-! ### Units and places -/

theorem unit_le (encoding : PositionEncoding) (c : Char) : unit encoding c ≤ c.utf8Size := by
  have positive := c.utf8Size_pos
  cases encoding with
  | utf8 => exact Nat.le_refl _
  | wide encoding =>
      cases encoding with
      | utf32 => exact positive
      | utf16 =>
          have value : c.toNat = c.val.toNat := rfl
          simp only [unit, utf16Size, Char.utf8Size, UInt32.le_iff_toNat_le, UInt32.toNat_ofNatLT, value]
          split_ifs <;> omega

theorem unit_pos (encoding : PositionEncoding) (c : Char) : 0 < unit encoding c := by
  cases encoding with
  | utf8 => exact c.utf8Size_pos
  | wide encoding =>
      cases encoding with
      | utf32 => exact Nat.one_pos
      | utf16 =>
          simp only [unit, utf16Size]
          split <;> omega

theorem width_pos (encoding : PositionEncoding) {text : Text} (some_ : text ≠ []) :
    0 < width (unit encoding) text := by
  cases text with
  | nil => exact absurd rfl some_
  | cons c cs => exact Nat.lt_of_lt_of_le (unit_pos encoding c) (Nat.le_add_right _ _)

/-- The place behind the front of a text. -/
abbrev placeOf (encoding : PositionEncoding) (before : Text) : Place :=
  walk (unit encoding) .origin before

/-- The numbers of a place in a text are at most its bytes. -/
theorem placeOf_le (encoding : PositionEncoding) (before : Text) :
    (placeOf encoding before).line + (placeOf encoding before).column ≤ byteLen before := by
  have bounded := walk_le (unit encoding) (unit_le encoding) (fun c => c.utf8Size_pos) .origin before
  rw [width_utf8Size] at bounded
  have zero : (Place.origin).line + (Place.origin).column = 0 := rfl
  rw [zero, Nat.zero_add] at bounded
  exact bounded

def asPosition (place : Place) : Position := ⟨.ofNat place.line, .ofNat place.column⟩

/-- The numbers of the place are `u32`s. -/
structure Small (place : Place) : Prop where
  line : place.line < 2 ^ 32
  column : place.column < 2 ^ 32

theorem toNat_ofNat {n : Nat} (small : n < 2 ^ 32) : (UInt32.ofNat n).toNat = n :=
  UInt32.toNat_ofNat_of_lt' small

theorem placeOf_small (encoding : PositionEncoding) {before after : Text}
    (short : byteLen (before ++ after) < 2 ^ 32) : Small (placeOf encoding before) := by
  have bounded := placeOf_le encoding before
  rw [byteLen_append] at short
  exact ⟨by omega, by omega⟩

variable {li : LineIndex} (documented : li.Documented) (encoding : PositionEncoding)

include documented in
/-- The position of an offset is the place of the text in front of it. -/
theorem position_eq {before after : Text} (short : byteLen (before ++ after) < 2 ^ 32) :
    position li encoding (li.build (before ++ after)) (byteLen before) =
      some (asPosition (placeOf encoding before)) := by
  rw [position, documented.lineCol_build before after short]
  cases encoding with
  | utf8 => rfl
  | wide encoding =>
      dsimp only [Option.bind_eq_bind, Option.bind_some]
      rw [documented.toWide_build encoding before after short]
      rfl

/-! ### Deltas -/

theorem checkedSub_ofNat {m n : Nat} (le : m ≤ n) (small : n < 2 ^ 32) :
    ∃ d, checkedSub (.ofNat n) (.ofNat m) = some d ∧ d.toNat = n - m := by
  have bound : UInt32.ofNat m ≤ UInt32.ofNat n := by
    rw [UInt32.le_iff_toNat_le, toNat_ofNat small, toNat_ofNat (Nat.lt_of_le_of_lt le small)]
    exact le
  refine ⟨_, if_pos bound, ?_⟩
  rw [UInt32.toNat_sub_of_le _ _ bound, toNat_ofNat small,
    toNat_ofNat (Nat.lt_of_le_of_lt le small)]

/-- The place of the last token, or where the text begins. -/
def lastPlace (prev : Option Position) : Place :=
  match prev with
  | some prev => ⟨prev.line.toNat, prev.character.toNat⟩
  | none => .origin

theorem lastPlace_asPosition {place : Place} (small : Small place) :
    lastPlace (some (asPosition place)) = place := by
  rw [lastPlace, asPosition]
  simp only [toNat_ofNat small.line, toNat_ofNat small.column]

/-- A place that is not in front of the last one has deltas, and they lead to it. -/
theorem deltas_advance {prev : Option Position} {place : Place} (small : Small place)
    (later : lastPlace prev ≤ place) :
    ∃ delta, deltas prev (asPosition place) = some delta ∧
      ∀ length tokenType modifiers,
        advance (lastPlace prev) ⟨delta.1, delta.2, length, tokenType, modifiers⟩ = place := by
  have line := toNat_ofNat small.line
  have column := toNat_ofNat small.column
  cases prev with
  | none =>
      refine ⟨(.ofNat place.line, .ofNat place.column), rfl, ?_⟩
      intro length tokenType modifiers
      rw [advance, lastPlace, Place.origin]
      dsimp only
      split
      case isTrue zero =>
        have first : place.line = 0 := by
          rw [← line, zero]
          rfl
        rw [column, Nat.zero_add, ← first]
      case isFalse => rw [line, column, Nat.zero_add]
  | some prev =>
      have order := Place.le_iff.mp later
      simp only [lastPlace] at order
      rw [deltas]
      by_cases same : prev.line = (asPosition place).line
      · have sameLine : prev.line.toNat = place.line := by
          rw [same]
          exact line
        have below : prev.character.toNat ≤ place.column := by omega
        obtain ⟨d, found, value⟩ := checkedSub_ofNat below small.column
        rw [UInt32.ofNat_toNat] at found
        refine ⟨(0, d), ?_, ?_⟩
        · rw [if_neg (not_not_intro same)]
          exact congrArg (Option.map _) found
        · intro length tokenType modifiers
          rw [advance, if_pos rfl]
          simp only [lastPlace, value, sameLine]
          rw [Nat.add_sub_cancel' below]
      · have differs : prev.line.toNat ≠ place.line := by
          intro equal
          exact same (UInt32.toNat_inj.mp (equal.trans line.symm))
        have below : prev.line.toNat ≤ place.line := by omega
        obtain ⟨d, found, value⟩ := checkedSub_ofNat below small.line
        rw [UInt32.ofNat_toNat] at found
        refine ⟨(d, (asPosition place).character), ?_, ?_⟩
        · rw [if_pos same]
          exact congrArg (Option.map _) found
        · intro length tokenType modifiers
          have positive : d ≠ 0 := by
            intro zero
            rw [zero] at value
            have : (0 : UInt32).toNat = 0 := rfl
            omega
          rw [advance, if_neg positive]
          simp only [lastPlace, value, asPosition, column]
          rw [Nat.add_sub_cancel' below]

/-! ### Tokens -/

/-- The place of the last one of some tokens. -/
def endFrom : Place → List SemanticToken → Place
  | place, [] => place
  | place, token :: rest => endFrom (advance place token) rest

theorem decodeFrom_snoc (place : Place) (tokens : List SemanticToken) (token : SemanticToken) :
    decodeFrom place (tokens ++ [token]) =
      decodeFrom place tokens ++ [⟨⟨advance (endFrom place tokens) token, token.length.toNat⟩,
        token.tokenType, token.tokenModifiersBitset⟩] := by
  induction tokens generalizing place with
  | nil => rfl
  | cons first rest ih =>
      rw [List.cons_append, decodeFrom, decodeFrom, ih]
      rfl

theorem endFrom_snoc (place : Place) (tokens : List SemanticToken) (token : SemanticToken) :
    endFrom place (tokens ++ [token]) = advance (endFrom place tokens) token := by
  induction tokens generalizing place with
  | nil => rfl
  | cons first rest ih => exact ih _

/-- The tokens so far end at the last place. -/
def Encoder.Wf (e : Encoder) : Prop := endFrom .origin e.out = lastPlace e.prev

/-- The encoder goes on by some rows, up to a place. -/
structure Extends (e : Encoder) (rows : List Row) (upper : Place) (e' : Encoder) : Prop where
  wf : e'.Wf
  rows : decode e'.out = decode e.out ++ rows
  upper : lastPlace e'.prev ≤ upper
  prevEnd : e'.prevEnd = e.prevEnd

theorem Extends.trans {e e' e'' : Encoder} {rows rows' : List Row} {upper upper' : Place}
    (first : Extends e rows upper e') (second : Extends e' rows' upper' e'') :
    Extends e (rows ++ rows') upper' e'' where
  wf := second.wf
  rows := by rw [second.rows, first.rows, List.append_assoc]
  upper := second.upper
  prevEnd := second.prevEnd.trans first.prevEnd

/-- The row of a part of a highlight. -/
abbrev rowOf (h : Highlight) (part : Part) : Row := ⟨part, tokenType h.tag, h.mods.toUInt32⟩

/-- The branch of `pushPiece` for a piece with its two positions. -/
def pushToken (highlight : Highlight) (e : Encoder) (start stop : Position) : Option Encoder :=
  if stop.character ≤ start.character then some e
  else do
    let delta ← deltas e.prev start
    let length ← checkedSub stop.character start.character
    return { e with
      out := e.out ++ [⟨delta.1, delta.2, length, tokenType highlight.tag, highlight.mods.toUInt32⟩]
      prev := some start }

/-- One line of a highlight becomes its token. -/
theorem pushToken_line {h : Highlight} {e : Encoder} (wf : e.Wf) {place stop : Place} {n : Nat}
    (small : Small place) (small' : Small stop) (stops : stop = ⟨place.line, place.column + n⟩)
    (later : lastPlace e.prev ≤ place) :
    ∃ e', pushToken h e (asPosition place) (asPosition stop) = some e' ∧
      Extends e (if n = 0 then [] else [rowOf h ⟨place, n⟩]) stop e' := by
  have start := toNat_ofNat small.column
  have finish := toNat_ofNat small'.column
  have behind : place ≤ stop := by
    rw [stops]
    exact .inr ⟨rfl, Nat.le_add_right _ _⟩
  have order : (asPosition stop).character ≤ (asPosition place).character ↔ n = 0 := by
    rw [UInt32.le_iff_toNat_le, asPosition, asPosition, start, finish, stops]
    dsimp only
    omega
  rw [pushToken]
  by_cases empty : n = 0
  · rw [if_pos (order.mpr empty), if_pos empty]
    exact ⟨e, rfl, wf, (List.append_nil _).symm, Place.le_trans later behind, rfl⟩
  · rw [if_neg (mt order.mp empty), if_neg empty]
    obtain ⟨delta, found, leads⟩ := deltas_advance small later
    have le : place.column ≤ stop.column := by
      rw [stops]
      exact Nat.le_add_right _ _
    obtain ⟨length, long, value⟩ := checkedSub_ofNat le small'.column
    have count : length.toNat = n := by
      rw [value, stops]
      exact Nat.add_sub_cancel_left ..
    have subtracted : checkedSub (asPosition stop).character (asPosition place).character =
        some length := long
    rw [found, subtracted]
    have reached : endFrom .origin e.out = lastPlace e.prev := wf
    refine ⟨_, rfl, ?_, ?_, ?_, rfl⟩
    · rw [Encoder.Wf, endFrom_snoc, reached, leads, lastPlace_asPosition small]
    · rw [decode, decodeFrom_snoc, reached, leads, count]
      rfl
    · rw [lastPlace_asPosition small]
      exact behind

include documented in
/-- A piece that ends at a newline ends in front of it. -/
theorem pushPiece_line {before l after : Text}
    (short : byteLen (before ++ (l ++ '\n' :: after)) < 2 ^ 32) (h : Highlight) (e : Encoder) :
    pushPiece li encoding (li.build (before ++ (l ++ '\n' :: after))) h e
        ⟨byteLen before, byteLen before + byteLen l + 1⟩ =
      pushToken h e (asPosition (placeOf encoding before))
        (asPosition (placeOf encoding (before ++ l))) := by
  have first := position_eq documented encoding short
  have whole : before ++ (l ++ '\n' :: after) = before ++ l ++ ['\n'] ++ after := by simp
  have inner : before ++ (l ++ '\n' :: after) = before ++ l ++ ('\n' :: after) := by simp
  have shortLast : byteLen (before ++ l ++ ['\n'] ++ after) < 2 ^ 32 := whole ▸ short
  have last := position_eq documented encoding shortLast
  have shortOwn : byteLen (before ++ l ++ ('\n' :: after)) < 2 ^ 32 := inner ▸ short
  have own := position_eq documented encoding shortOwn
  rw [← whole] at last
  rw [← inner] at own
  have lastOffset : byteLen (before ++ l ++ ['\n']) = byteLen before + byteLen l + 1 := by
    rw [byteLen_append, byteLen_append]
    rfl
  rw [lastOffset] at last
  rw [byteLen_append] at own
  have zero : (asPosition (placeOf encoding (before ++ l ++ ['\n']))).character = 0 := by
    rw [placeOf, walk_newline]
    rfl
  have wide : byteLen before < byteLen before + byteLen l + 1 := by omega
  rw [pushPiece]
  dsimp only
  rw [first, last]
  simp only [Option.bind_eq_bind, Option.bind_some]
  rw [if_pos ⟨zero, wide⟩, Nat.add_sub_cancel, own, Option.bind_some]
  rfl

include documented in
/-- The last piece ends with the highlight. -/
theorem pushPiece_last {before l after : Text} (plain : '\n' ∉ l) (some_ : l ≠ [])
    (short : byteLen (before ++ (l ++ after)) < 2 ^ 32) (h : Highlight) (e : Encoder) :
    pushPiece li encoding (li.build (before ++ (l ++ after))) h e
        ⟨byteLen before, byteLen before + byteLen l⟩ =
      pushToken h e (asPosition (placeOf encoding before))
        (asPosition (placeOf encoding (before ++ l))) := by
  have first := position_eq documented encoding short
  have whole : before ++ (l ++ after) = before ++ l ++ after := by simp
  have shortLast : byteLen (before ++ l ++ after) < 2 ^ 32 := whole ▸ short
  have last := position_eq documented encoding shortLast
  have small := placeOf_small encoding shortLast
  rw [← whole, byteLen_append] at last
  have column : (placeOf encoding (before ++ l)).column =
      (placeOf encoding before).column + width (unit encoding) l := by
    rw [placeOf, walk_append, walk_plain _ plain]
  have positive := width_pos encoding some_
  have nonzero : (asPosition (placeOf encoding (before ++ l))).character ≠ 0 := by
    intro zero
    have value := toNat_ofNat small.column
    rw [show UInt32.ofNat (placeOf encoding (before ++ l)).column = 0 from zero] at value
    have : (0 : UInt32).toNat = 0 := rfl
    omega
  rw [pushPiece]
  dsimp only
  rw [first, last]
  simp only [Option.bind_eq_bind, Option.bind_some]
  rw [if_neg fun both => nonzero both.1]
  rfl

/-! ### The pieces of a highlight -/

theorem cutAtLines_line {l : Text} (plain : '\n' ∉ l) (start place : Nat) (rest : Text) :
    cutAtLines start place (l ++ '\n' :: rest) =
      ⟨start, place + byteLen l + 1⟩ ::
        cutAtLines (place + byteLen l + 1) (place + byteLen l + 1) rest := by
  induction l generalizing place with
  | nil => rfl
  | cons c cs ih =>
      have here : c ≠ '\n' := fun same => plain (same ▸ List.mem_cons_self)
      have later : '\n' ∉ cs := fun member => plain (List.mem_cons_of_mem c member)
      rw [List.cons_append, cutAtLines, if_neg here, ih later, byteLen_cons, Nat.add_assoc place]

theorem cutAtLines_last {l : Text} (plain : '\n' ∉ l) (start place : Nat) :
    cutAtLines start place l =
      if start = place + byteLen l then [] else [⟨start, place + byteLen l⟩] := by
  induction l generalizing place with
  | nil => rfl
  | cons c cs ih =>
      have here : c ≠ '\n' := fun same => plain (same ▸ List.mem_cons_self)
      have later : '\n' ∉ cs := fun member => plain (List.mem_cons_of_mem c member)
      rw [cutAtLines, if_neg here, ih later, byteLen_cons, Nat.add_assoc]

theorem ownRows {l : Text} (h : Highlight) (place : Place) :
    ((if l = [] then [] else [⟨place, width (unit encoding) l⟩] : List Part).map (rowOf h)) =
      if width (unit encoding) l = 0 then [] else [rowOf h ⟨place, width (unit encoding) l⟩] := by
  by_cases empty : l = []
  · rw [empty]
    rfl
  · rw [if_neg empty, if_neg (Nat.ne_of_gt (width_pos encoding empty))]
    rfl

include documented in
/-- The pieces of a highlight become the rows of its parts. -/
theorem pushPieces (h : Highlight) (covered : Text) :
    ∀ (before after : Text) (e : Encoder), byteLen (before ++ (covered ++ after)) < 2 ^ 32 →
      e.Wf → lastPlace e.prev ≤ placeOf encoding before →
      ∃ e', (cutAtLines (byteLen before) (byteLen before) covered).foldlM
          (pushPiece li encoding (li.build (before ++ (covered ++ after))) h) e = some e' ∧
        Extends e ((parts (unit encoding) (placeOf encoding before) covered).map (rowOf h))
          (placeOf encoding (before ++ covered)) e' := by
  induction covered using line_induction with
  | last l plain =>
      intro before after e short wf later
      have small := placeOf_small encoding short
      have whole : before ++ (l ++ after) = before ++ l ++ after := by simp
      have small' : Small (placeOf encoding (before ++ l)) := placeOf_small encoding (whole ▸ short)
      have stops : placeOf encoding (before ++ l) = ⟨(placeOf encoding before).line,
          (placeOf encoding before).column + width (unit encoding) l⟩ := by
        rw [placeOf, walk_append, walk_plain _ plain]
      rw [cutAtLines_last plain, parts_plain _ plain, ownRows]
      by_cases empty : l = []
      · subst empty
        refine ⟨e, by rw [if_pos (by simp)]; rfl, wf, (List.append_nil _).symm, ?_, rfl⟩
        rw [List.append_nil]
        exact later
      · have positive := byteLen_pos_of_ne_nil empty
        rw [if_neg (by omega)]
        obtain ⟨e', pushed, extended⟩ := pushToken_line (h := h) wf small small' stops later
        refine ⟨e', ?_, extended⟩
        rw [List.foldlM_cons, pushPiece_last documented encoding plain empty short, pushed]
        rfl
  | line l rest plain ih =>
      intro before after e short wf later
      have whole : before ++ (l ++ '\n' :: rest ++ after) =
          before ++ (l ++ '\n' :: (rest ++ after)) := by simp
      have onwards : before ++ (l ++ '\n' :: rest ++ after) =
          before ++ (l ++ ['\n']) ++ (rest ++ after) := by simp
      have inner : before ++ (l ++ '\n' :: rest ++ after) =
          before ++ l ++ ('\n' :: (rest ++ after)) := by simp
      have small := placeOf_small encoding short
      have small' : Small (placeOf encoding (before ++ l)) := placeOf_small encoding (inner ▸ short)
      have stops : placeOf encoding (before ++ l) = ⟨(placeOf encoding before).line,
          (placeOf encoding before).column + width (unit encoding) l⟩ := by
        rw [placeOf, walk_append, walk_plain _ plain]
      have next : placeOf encoding (before ++ (l ++ ['\n'])) =
          ⟨(placeOf encoding before).line + 1, 0⟩ := by
        rw [placeOf, walk_append, walk_newline, walk_plain _ plain]
      obtain ⟨e', pushed, extended⟩ := pushToken_line (h := h) wf small small' stops later
      have below : lastPlace e'.prev ≤ placeOf encoding (before ++ (l ++ ['\n'])) := by
        refine Place.le_trans extended.upper ?_
        rw [stops, next]
        exact .inl (Nat.lt_succ_self _)
      obtain ⟨e'', folded, extended'⟩ :=
        ih (before ++ (l ++ ['\n'])) after e' (onwards ▸ short) extended.wf below
      have offset : byteLen (before ++ (l ++ ['\n'])) = byteLen before + byteLen l + 1 := by
        rw [byteLen_append, byteLen_append, ← Nat.add_assoc]
        rfl
      refine ⟨e'', ?_, ?_⟩
      · rw [cutAtLines_line plain, List.foldlM_cons, whole,
          pushPiece_line documented encoding (whole ▸ short), pushed, ← whole, onwards, ← offset]
        exact folded
      · have ended := extended.trans extended'
        rw [next] at ended
        rw [parts_line _ plain, List.map_append, ownRows]
        have tail : before ++ (l ++ '\n' :: rest) = before ++ (l ++ ['\n']) ++ rest := by simp
        rw [tail]
        exact ended

/-! ### The highlights of a text -/

/-- The highlight is a part of the text. -/
def Highlight.InText (text : Text) (h : Highlight) : Prop :=
  (slice? text h.range.start h.range.stop).isSome

theorem Highlight.InText.split {text : Text} {h : Highlight} (inText : h.InText text) :
    ∃ before covered after, text = before ++ (covered ++ after) ∧
      h.range = ⟨byteLen before, byteLen before + byteLen covered⟩ := by
  obtain ⟨covered, sliced⟩ := Option.isSome_iff_exists.mp inText
  rw [slice?] at sliced
  split at sliced
  case isFalse => cases sliced
  case isTrue order =>
    obtain ⟨rest, from_, taken⟩ := Option.bind_eq_some_iff.mp sliced
    obtain ⟨before, rfl, start⟩ := sliceFrom?_eq_some from_
    obtain ⟨after, rfl, length⟩ := sliceTo?_eq_some taken
    refine ⟨before, covered, after, rfl, ?_⟩
    obtain ⟨⟨first, last⟩, _, _⟩ := h
    simp only [TextRange.mk.injEq] at start length order ⊢
    omega

theorem highlightRows_eq {before covered after : Text} {h : Highlight}
    (range : h.range = ⟨byteLen before, byteLen before + byteLen covered⟩) :
    highlightRows encoding (before ++ (covered ++ after)) h =
      (parts (unit encoding) (placeOf encoding before) covered).map (rowOf h) := by
  rw [highlightRows, range]
  dsimp only
  rw [sliceTo?_append, slice?_append]

/-- Of two fronts of a text the shorter one is a front of the other. -/
theorem front_of_byteLen_le {one two rest rest' : Text} (same : one ++ rest = two ++ rest')
    (shorter : byteLen one ≤ byteLen two) : ∃ middle, two = one ++ middle := by
  rcases List.append_eq_append_iff.mp same with ⟨middle, shape, -⟩ | ⟨middle, shape, -⟩
  · exact ⟨middle, shape⟩
  · have empty : middle = [] := by
      rw [shape, byteLen_append] at shorter
      exact byteLen_eq_zero.mp (by omega)
    exact ⟨[], by rw [shape, empty, List.append_nil, List.append_nil]⟩

/-- The end of the last highlight taken is an offset of the text, and a place is not behind it. -/
def Reached (text : Text) (prevEnd : Option Nat) (place : Place) : Prop :=
  ∃ before after, text = before ++ after ∧ prevEnd.getD 0 = byteLen before ∧
    place ≤ placeOf encoding before

theorem Reached.initial (text : Text) : Reached encoding text none .origin :=
  ⟨[], text, rfl, rfl, Place.le_refl _⟩

/-- A highlight that is taken begins at or behind what is reached. -/
theorem Reached.le {text before rest : Text} {prevEnd : Option Nat} {place : Place} {h : Highlight}
    (reached : Reached encoding text prevEnd place) (shape : text = before ++ rest)
    (start : h.range.start = byteLen before)
    (taken : ¬ prevEnd.any (fun stop => h.range.start < stop) = true) :
    place ≤ placeOf encoding before := by
  obtain ⟨front, back, shape', stop, le⟩ := reached
  have order : byteLen front ≤ byteLen before := by
    rw [← stop, ← start]
    cases prevEnd with
    | none => exact Nat.zero_le _
    | some stop => simpa using taken
  obtain ⟨middle, rfl⟩ := front_of_byteLen_le (shape'.symm.trans shape) order
  rw [placeOf, walk_append]
  exact Place.le_trans le (le_walk _ _ _)

include documented in
/-- The encoder goes through the highlights it takes. -/
theorem pushHighlights {text : Text} (short : byteLen text < 2 ^ 32) (highlights : List Highlight) :
    ∀ e : Encoder, (∀ h ∈ highlights, h.InText text) → e.Wf →
      Reached encoding text e.prevEnd (lastPlace e.prev) →
      ∃ e', highlights.foldlM (pushHighlight li encoding (li.build text)) e = some e' ∧
        decode e'.out = decode e.out ++
          (kept e.prevEnd highlights).flatMap (highlightRows encoding text) := by
  induction highlights with
  | nil =>
      intro e _ _ _
      exact ⟨e, rfl, (List.append_nil _).symm⟩
  | cons h rest ih =>
      intro e inText wf reached
      have inRest : ∀ h ∈ rest, h.InText text := fun h member =>
        inText h (List.mem_cons_of_mem _ member)
      rw [List.foldlM_cons, pushHighlight, kept]
      by_cases dropped : e.prevEnd.any (fun stop => h.range.start < stop) = true
      · rw [if_pos dropped, if_pos dropped]
        exact ih e inRest wf reached
      · rw [if_neg dropped, if_neg dropped]
        obtain ⟨before, covered, after, shape, range⟩ := (inText h List.mem_cons_self).split
        have start : h.range.start = byteLen before := by rw [range]
        have stop : h.range.stop = byteLen (before ++ covered) := by rw [range, byteLen_append]
        have later := reached.le encoding shape start dropped
        let taking : Encoder := { e with prevEnd := some h.range.stop }
        obtain ⟨e', pushed, extended⟩ :=
          pushPieces documented encoding h covered before after taking (shape ▸ short) wf later
        have reached' : Reached encoding text e'.prevEnd (lastPlace e'.prev) := by
          refine ⟨before ++ covered, after, by rw [shape, List.append_assoc], ?_, extended.upper⟩
          rw [extended.prevEnd]
          exact stop
        obtain ⟨e'', folded, rows⟩ := ih e' inRest extended.wf reached'
        have cut := documented.lines_build before covered after (shape ▸ short)
        rw [← shape, ← range] at cut
        rw [← shape] at pushed
        refine ⟨e'', ?_, ?_⟩
        · rw [cut, pushed]
          exact folded
        · have own : highlightRows encoding (before ++ (covered ++ after)) h =
              (parts (unit encoding) (placeOf encoding before) covered).map (rowOf h) :=
            highlightRows_eq encoding range
          rw [← shape] at own
          rw [rows, extended.rows, extended.prevEnd, List.flatMap_cons, own, List.append_assoc]

/-! ### The order of the rows -/

/-- One row ends at or in front of the place where another begins. -/
def Row.EndsBefore (first second : Row) : Prop := first.part.stop ≤ second.part.place

/-- The rows of a highlight are in order, between its two ends. -/
theorem highlightRows_ordered {text : Text} {h : Highlight} {before covered after : Text}
    (shape : text = before ++ (covered ++ after))
    (range : h.range = ⟨byteLen before, byteLen before + byteLen covered⟩) :
    (highlightRows encoding text h).Pairwise Row.EndsBefore ∧
      ∀ row ∈ highlightRows encoding text h, placeOf encoding before ≤ row.part.place ∧
        row.part.stop ≤ placeOf encoding (before ++ covered) := by
  subst shape
  rw [highlightRows_eq encoding range]
  constructor
  · rw [List.pairwise_map]
    exact parts_ordered (unit encoding) _ covered
  · intro row member
    obtain ⟨part, own, rfl⟩ := List.mem_map.mp member
    rw [placeOf, placeOf, walk_append]
    exact parts_bounds (unit encoding) _ covered part own

/-- So are the rows of the highlights that are taken. -/
theorem rows_ordered {text : Text} (highlights : List Highlight) :
    ∀ (prevEnd : Option Nat) (place : Place), (∀ h ∈ highlights, h.InText text) →
      Reached encoding text prevEnd place →
      let rows := (kept prevEnd highlights).flatMap (highlightRows encoding text)
      rows.Pairwise Row.EndsBefore ∧ ∀ row ∈ rows, place ≤ row.part.place := by
  induction highlights with
  | nil =>
      intro prevEnd place _ _
      exact ⟨.nil, fun row member => absurd member List.not_mem_nil⟩
  | cons h rest ih =>
      intro prevEnd place inText reached
      have inRest : ∀ h ∈ rest, h.InText text := fun h member =>
        inText h (List.mem_cons_of_mem _ member)
      rw [kept]
      by_cases dropped : prevEnd.any (fun stop => h.range.start < stop) = true
      · rw [if_pos dropped]
        exact ih prevEnd place inRest reached
      · rw [if_neg dropped, List.flatMap_cons]
        obtain ⟨before, covered, after, shape, range⟩ := (inText h List.mem_cons_self).split
        have start : h.range.start = byteLen before := by rw [range]
        have stop : h.range.stop = byteLen (before ++ covered) := by rw [range, byteLen_append]
        have later := reached.le encoding shape start dropped
        obtain ⟨ordered, bounds⟩ := highlightRows_ordered encoding shape range
        have reached' :
            Reached encoding text (some h.range.stop) (placeOf encoding (before ++ covered)) :=
          ⟨before ++ covered, after, by rw [shape, List.append_assoc], stop, Place.le_refl _⟩
        obtain ⟨ordered', low⟩ := ih _ _ inRest reached'
        constructor
        · refine List.pairwise_append.mpr ⟨ordered, ordered', ?_⟩
          intro first own second behind
          exact Place.le_trans (bounds first own).2 (low second behind)
        · intro row member
          rcases List.mem_append.mp member with own | behind
          · exact Place.le_trans later (bounds row own).1
          · have between := le_walk (unit encoding) (placeOf encoding before) covered
            rw [← walk_append] at between
            exact Place.le_trans later (Place.le_trans between (low row behind))

/-- A row covers some text of a line. -/
theorem row_covered {text : Text} {h : Highlight} (inText : h.InText text) :
    ∀ row ∈ highlightRows encoding text h, 0 < row.part.width ∧
      ∃ front covered back, text = front ++ (covered ++ back) ∧ '\n' ∉ covered ∧
        row.part = ⟨placeOf encoding front, width (unit encoding) covered⟩ := by
  obtain ⟨before, covered, after, rfl, range⟩ := inText.split
  rw [highlightRows_eq encoding range]
  intro row member
  obtain ⟨part, own, rfl⟩ := List.mem_map.mp member
  obtain ⟨front, inner, back, rfl, plain, some_, rfl⟩ :=
    parts_covered (unit encoding) _ covered part own
  refine ⟨width_pos encoding some_, before ++ front, inner, back ++ after, by simp, plain, ?_⟩
  rw [placeOf, placeOf, walk_append]

theorem mem_of_kept {prevEnd : Option Nat} {highlights : List Highlight} {h : Highlight}
    (member : h ∈ kept prevEnd highlights) : h ∈ highlights := by
  induction highlights generalizing prevEnd with
  | nil => exact member
  | cons first rest ih =>
      rw [kept] at member
      split at member
      · exact List.mem_cons_of_mem _ (ih member)
      · rcases List.mem_cons.mp member with rfl | later
        · exact List.mem_cons_self
        · exact List.mem_cons_of_mem _ (ih later)

/-- Highlights of a text are encoded, and the tokens decode to the nonempty parts that the highlights
taken have on the lines of the text; each of these begins at or behind the end of the one before. -/
theorem tokens_of_highlights (documented : li.Documented) {text : Text}
    (short : byteLen text < 2 ^ 32) {highlights : List Highlight}
    (inText : ∀ h ∈ highlights, h.InText text) (encoding : PositionEncoding) :
    ∃ tokens, highlightsToTokens li encoding highlights (li.build text) = some tokens ∧
      decode tokens = (kept none highlights).flatMap (highlightRows encoding text) ∧
      (decode tokens).Pairwise Row.EndsBefore ∧
      ∀ row ∈ decode tokens, 0 < row.part.width ∧
        ∃ front covered back, text = front ++ (covered ++ back) ∧ '\n' ∉ covered ∧
          row.part = ⟨walk (unit encoding) .origin front, width (unit encoding) covered⟩ := by
  obtain ⟨e, folded, rows⟩ := pushHighlights documented encoding short highlights .initial inText rfl
    (Reached.initial encoding text)
  have ordered := rows_ordered encoding highlights none .origin inText (Reached.initial encoding text)
  have decoded : decode e.out = (kept none highlights).flatMap (highlightRows encoding text) := rows
  refine ⟨e.out, ?_, decoded, ?_, ?_⟩
  · rw [highlightsToTokens, folded]
    rfl
  · rw [decoded]
    exact ordered.1
  · intro row member
    rw [decoded] at member
    obtain ⟨h, taken, own⟩ := List.mem_flatMap.mp member
    exact row_covered encoding (inText h (mem_of_kept taken)) row own

/-! ### A line index -/

/-- The line index that looks everything up in the text. -/
def textIndex : LineIndex where
  Index := Text
  build text := text
  lines text range :=
    match slice? text range.start range.stop with
    | some covered => cutAtLines range.start range.start covered
    | none => []
  lineCol text offset := (sliceTo? text offset).map fun before =>
    asLineCol (walk (unit .utf8) .origin before)
  toWide text encoding lineCol :=
    (text.inits.find? fun before => asLineCol (walk (unit .utf8) .origin before) = lineCol).map
      fun before => asLineCol (walk (unit (.wide encoding)) .origin before)

/-- Text moves a place on. -/
theorem walk_ne {text : Text} (some_ : text ≠ []) (place : Place) :
    walk (unit encoding) place text ≠ place := by
  cases text with
  | nil => exact absurd rfl some_
  | cons c cs =>
      intro same
      have positive := unit_pos encoding c
      rw [walk] at same
      have le := le_walk (unit encoding)
        (if c = '\n' then ⟨place.line + 1, 0⟩ else ⟨place.line, place.column + unit encoding c⟩) cs
      rw [same, Place.le_iff] at le
      split at le <;> (dsimp only at le; omega)

/-- A place has one front of the text in front of it. -/
theorem front_of_place {one two rest rest' : Text} (same : one ++ rest = two ++ rest')
    (places : placeOf encoding one = placeOf encoding two) : one = two := by
  rcases List.append_eq_append_iff.mp same with ⟨middle, rfl, -⟩ | ⟨middle, rfl, -⟩
  · by_contra differs
    have some_ : middle ≠ [] := fun empty => differs (by rw [empty, List.append_nil])
    exact walk_ne encoding some_ _ ((walk_append _ _ one middle).symm.trans places.symm)
  · by_contra differs
    have some_ : middle ≠ [] := fun empty => differs (by rw [empty, List.append_nil])
    exact walk_ne encoding some_ _ ((walk_append _ _ two middle).symm.trans places)

theorem asLineCol_inj {one two : Place} (small : Small one) (small' : Small two)
    (same : asLineCol one = asLineCol two) : one = two := by
  obtain ⟨line, column⟩ := LineCol.mk.inj same
  have lines := congrArg UInt32.toNat line
  have columns := congrArg UInt32.toNat column
  rw [toNat_ofNat small.line, toNat_ofNat small'.line] at lines
  rw [toNat_ofNat small.column, toNat_ofNat small'.column] at columns
  cases one
  cases two
  simp only [Place.mk.injEq]
  exact ⟨lines, columns⟩

theorem textIndex_documented : textIndex.Documented where
  lines_build before covered after _ := by
    simp only [textIndex, slice?_append]
  lineCol_build before after _ := by
    simp only [textIndex, sliceTo?_append, Option.map_some]
  toWide_build wide before after short := by
    have member : before ∈ (before ++ after).inits := (List.mem_inits _ _).mpr ⟨after, rfl⟩
    simp only [textIndex]
    cases found : (before ++ after).inits.find? fun front =>
        decide (asLineCol (walk (unit .utf8) .origin front) =
          asLineCol (walk (unit .utf8) .origin before)) with
    | none =>
        have silent := List.find?_eq_none.mp found before member
        exact absurd (decide_eq_true rfl) silent
    | some front =>
        have holds := List.find?_some found
        have same : asLineCol (walk (unit .utf8) .origin front) =
            asLineCol (walk (unit .utf8) .origin before) := of_decide_eq_true holds
        obtain ⟨back, shape⟩ := (List.mem_inits _ _).mp (List.mem_of_find?_eq_some found)
        have places := asLineCol_inj (placeOf_small .utf8 (shape ▸ short))
          (placeOf_small .utf8 short) same
        obtain rfl := front_of_place .utf8 shape places
        rfl

def commentText : Text := ['/', '*', '\n', 'x', '*', '/', 'y']

/-- A comment of two lines, a name inside it and a name behind it. -/
def commentAndNames : List Highlight :=
  [⟨⟨0, 6⟩, .comment, 0⟩, ⟨⟨4, 6⟩, .variable_, 0⟩, ⟨⟨6, 7⟩, .variable_, 1⟩]

theorem commentAndNames_inText : ∀ h ∈ commentAndNames, h.InText commentText := by
  intro h member
  simp only [commentAndNames, List.mem_cons, List.not_mem_nil, or_false] at member
  rcases member with rfl | rfl | rfl <;> rfl

/-- The name inside the comment is dropped. -/
theorem comment_encoded :
    ∃ tokens,
      highlightsToTokens textIndex (.wide .utf16) commentAndNames commentText = some tokens ∧
      decode tokens =
        [⟨⟨⟨0, 0⟩, 2⟩, 15, 0⟩, ⟨⟨⟨1, 0⟩, 3⟩, 15, 0⟩, ⟨⟨⟨1, 3⟩, 1⟩, 8, 1⟩] := by
  obtain ⟨tokens, encoded, decoded, -⟩ :=
    tokens_of_highlights textIndex_documented  (by decide)
      commentAndNames_inText (.wide .utf16)
  exact ⟨tokens, encoded, decoded.trans rfl⟩

end CaffeineLs.Server.SemanticTokens
