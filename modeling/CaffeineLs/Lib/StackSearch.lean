/-
Module: CaffeineLs.Lib.StackSearch
Purpose: The search of a graph with a stack and a set of the nodes seen, which stops at the first answer,
  and which node of an acyclic graph that is.
Trusted boundary: none
Main exports: search, Shaped, Leads
-/
import Mathlib.Data.List.Induction
import Mathlib.Logic.Relation

namespace StackSearch

variable {α β κ S : Type} [DecidableEq κ]

/-- Nodes are popped from the stack; a new one that has no answer puts its children on it, so that the
last child is popped next. `none` is a search that is out of fuel. -/
def search (key : α → κ) (children : α → List α) (answer : α → Option β) :
    Nat → List α → List κ → Option (Option β)
  | 0, _, _ => none
  | _ + 1, [], _ => some none
  | fuel + 1, a :: stack, seen =>
      if key a ∈ seen then search key children answer fuel stack seen
      else
        match answer a with
        | some r => some (some r)
        | none =>
            search key children answer fuel ((children a).reverse ++ stack) (key a :: seen)

section Graph

variable (parents : S → List S) (declares : S → Prop)

/-- One node leads to another over some edges, or is it. -/
def Leads : S → S → Prop := Relation.ReflTransGen fun s p => p ∈ parents s

/-- Nothing at or below the node declares. -/
def Barren (s : S) : Prop := ∀ t, Leads parents s t → ¬ declares t

/-- The first node that declares, from a list of nodes whose last one is searched first: what is listed
behind it, or behind a node on the way to it, is barren. -/
inductive First : List S → S → Prop where
  | found {front back : List S} {s : S} (behind : ∀ b ∈ back, Barren parents declares b)
      (here : declares s) : First (front ++ s :: back) s
  | through {front back : List S} {s t : S} (behind : ∀ b ∈ back, Barren parents declares b)
      (silent : ¬ declares s) (first : First (parents s) t) : First (front ++ s :: back) t

variable {parents declares}

theorem Leads.parent {s p t : S} (edge : p ∈ parents s) (leads : Leads parents p t) :
    Leads parents s t :=
  Relation.ReflTransGen.head edge leads

theorem Barren.silent {s : S} (barren : Barren parents declares s) : ¬ declares s :=
  barren s .refl

theorem Barren.parent {s p : S} (barren : Barren parents declares s) (edge : p ∈ parents s) :
    Barren parents declares p :=
  fun t leads => barren t (leads.parent edge)

theorem barren_of_parents {s : S} (silent : ¬ declares s)
    (below : ∀ p ∈ parents s, Barren parents declares p) : Barren parents declares s := by
  intro t leads
  rcases Relation.ReflTransGen.cases_head leads with rfl | ⟨p, edge, rest⟩
  · exact silent
  · exact below p edge t rest

theorem First.leads {nodes : List S} {t : S} (first : First parents declares nodes t) :
    declares t ∧ ∃ s ∈ nodes, Leads parents s t := by
  induction first with
  | found behind here => exact ⟨here, _, List.mem_append_right _ List.mem_cons_self, .refl⟩
  | through behind silent first ih =>
      obtain ⟨holds, p, edge, rest⟩ := ih
      exact ⟨holds, _, List.mem_append_right _ List.mem_cons_self, rest.parent edge⟩

/-- A barren node behind all others changes nothing. -/
theorem First.snoc {nodes : List S} {s t : S} (first : First parents declares nodes t)
    (barren : Barren parents declares s) : First parents declares (nodes ++ [s]) t := by
  have all {back : List S} (behind : ∀ b ∈ back, Barren parents declares b) :
      ∀ b ∈ back ++ [s], Barren parents declares b := by
    intro b member
    rcases List.mem_append.mp member with old | isLast
    · exact behind b old
    · rw [List.mem_singleton.mp isLast]
      exact barren
  cases first with
  | @found front back _ behind here =>
      rw [List.append_assoc]
      exact .found (all behind) here
  | @through front back _ _ behind silent first =>
      rw [List.append_assoc]
      exact .through (all behind) silent first

theorem exists_rank_bound (rank : S → Nat) (nodes : List S) : ∃ n, ∀ s ∈ nodes, rank s < n := by
  induction nodes with
  | nil => exact ⟨0, fun s member => absurd member List.not_mem_nil⟩
  | cons s rest ih =>
      obtain ⟨n, below⟩ := ih
      refine ⟨max n (rank s + 1), ?_⟩
      intro t member
      rcases List.mem_cons.mp member with rfl | later
      · exact Nat.lt_of_lt_of_le (Nat.lt_succ_self _) (Nat.le_max_right _ _)
      · exact Nat.lt_of_lt_of_le (below t later) (Nat.le_max_left _ _)

theorem barren_or_first_below {rank : S → Nat} (acyclic : ∀ s, ∀ p ∈ parents s, rank p < rank s)
    (n : Nat) : ∀ nodes : List S, (∀ s ∈ nodes, rank s < n) →
      (∀ s ∈ nodes, Barren parents declares s) ∨ ∃ t, First parents declares nodes t := by
  induction n with
  | zero =>
      intro nodes below
      exact .inl fun s member => absurd (below s member) (Nat.not_lt_zero _)
  | succ n ih =>
      intro nodes
      induction nodes using List.reverseRecOn with
      | nil => exact fun _ => .inl fun s member => absurd member List.not_mem_nil
      | append_singleton front s ihFront =>
          intro below
          have frontBelow : ∀ t ∈ front, rank t < n + 1 := fun t member =>
            below t (List.mem_append_left _ member)
          have last := below s (List.mem_append_right _ List.mem_cons_self)
          have parentsBelow : ∀ p ∈ parents s, rank p < n := fun p edge =>
            Nat.lt_of_lt_of_le (acyclic s p edge) (Nat.le_of_lt_succ last)
          have nothing : ∀ b ∈ ([] : List S), Barren parents declares b := fun b member =>
            absurd member List.not_mem_nil
          by_cases here : declares s
          · exact .inr ⟨s, .found nothing here⟩
          · rcases ih (parents s) parentsBelow with barren | ⟨t, first⟩
            · have own := barren_of_parents here barren
              rcases ihFront frontBelow with all | ⟨t, first⟩
              · refine .inl fun t member => ?_
                rcases List.mem_append.mp member with inFront | isLast
                · exact all t inFront
                · rw [List.mem_singleton.mp isLast]
                  exact own
              · exact .inr ⟨t, first.snoc own⟩
            · exact .inr ⟨t, .through nothing here first⟩

/-- In an acyclic graph some node is first, unless all are barren. -/
theorem barren_or_first {rank : S → Nat} (acyclic : ∀ s, ∀ p ∈ parents s, rank p < rank s)
    (nodes : List S) :
    (∀ s ∈ nodes, Barren parents declares s) ∨ ∃ t, First parents declares nodes t := by
  obtain ⟨n, below⟩ := exists_rank_bound rank nodes
  exact barren_or_first_below acyclic n nodes below

end Graph

/-! ### What the search finds -/

/-- The nodes of a search stand for the nodes of an acyclic graph: their children do for the parents there,
they answer where these declare, and nodes with one key stand for one node. -/
structure Shaped (key : α → κ) (children : α → List α) (answer : α → Option β)
    (parents : S → List S) (declares : S → Prop) (shape : α → S) (rank : S → Nat) : Prop where
  children_shape : ∀ a, (children a).map shape = parents (shape a)
  answer_iff : ∀ a, (answer a).isSome ↔ declares (shape a)
  acyclic : ∀ s, ∀ p ∈ parents s, rank p < rank s
  key_shape : ∀ a b, key a = key b → shape a = shape b

variable {key : α → κ} {children : α → List α} {answer : α → Option β} {parents : S → List S}
  {declares : S → Prop} {shape : α → S} {rank : S → Nat}

omit [DecidableEq κ] in
theorem Shaped.answer_none (shaped : Shaped key children answer parents declares shape rank) {a : α}
    (silent : ¬ declares (shape a)) : answer a = none := by
  rw [← Option.not_isSome_iff_eq_none, shaped.answer_iff]
  exact silent

omit [DecidableEq κ] in
theorem Shaped.mem_parents (shaped : Shaped key children answer parents declares shape rank) {a c : α}
    (member : c ∈ children a) : shape c ∈ parents (shape a) := by
  rw [← shaped.children_shape]
  exact List.mem_map_of_mem member

/-- Barren nodes are searched through, and what is seen there is barren. -/
theorem search_barren (shaped : Shaped key children answer parents declares shape rank) (n : Nat) :
    ∀ (nodes rest : List α) (seen : List κ), (∀ a ∈ nodes, rank (shape a) < n) →
      (∀ a ∈ nodes, Barren parents declares (shape a)) →
      ∃ cost seen',
        (∀ fuel, search key children answer (fuel + cost) (nodes.reverse ++ rest) seen =
          search key children answer fuel rest seen') ∧
        ∀ a, key a ∈ seen' → key a ∈ seen ∨ Barren parents declares (shape a) := by
  induction n with
  | zero =>
      intro nodes rest seen below _
      cases nodes with
      | nil => exact ⟨0, seen, fun _ => rfl, fun _ => .inl⟩
      | cons a nodes => exact absurd (below a List.mem_cons_self) (Nat.not_lt_zero _)
  | succ n ih =>
      intro nodes
      induction nodes using List.reverseRecOn with
      | nil => exact fun rest seen _ _ => ⟨0, seen, fun _ => rfl, fun _ => .inl⟩
      | append_singleton front a ihFront =>
          intro rest seen below barren
          have frontBelow : ∀ b ∈ front, rank (shape b) < n + 1 := fun b member =>
            below b (List.mem_append_left _ member)
          have frontBarren : ∀ b ∈ front, Barren parents declares (shape b) := fun b member =>
            barren b (List.mem_append_left _ member)
          have last := below a (List.mem_append_right _ List.mem_cons_self)
          have own := barren a (List.mem_append_right _ List.mem_cons_self)
          have stack : (front ++ [a]).reverse ++ rest = a :: (front.reverse ++ rest) := by simp
          rw [stack]
          by_cases again : key a ∈ seen
          · obtain ⟨cost, seen', runs, known⟩ := ihFront rest seen frontBelow frontBarren
            refine ⟨cost + 1, seen', ?_, known⟩
            intro fuel
            rw [← Nat.add_assoc, search, if_pos again]
            exact runs fuel
          · have childBelow : ∀ c ∈ children a, rank (shape c) < n := fun c member =>
              Nat.lt_of_lt_of_le (shaped.acyclic _ _ (shaped.mem_parents member))
                (Nat.le_of_lt_succ last)
            have childBarren : ∀ c ∈ children a, Barren parents declares (shape c) :=
              fun c member => own.parent (shaped.mem_parents member)
            obtain ⟨cost, inner, runs, known⟩ :=
              ih (children a) (front.reverse ++ rest) (key a :: seen) childBelow childBarren
            obtain ⟨cost', seen', runs', known'⟩ := ihFront rest inner frontBelow frontBarren
            refine ⟨cost' + cost + 1, seen', ?_, ?_⟩
            · intro fuel
              rw [← Nat.add_assoc, ← Nat.add_assoc, search, if_neg again,
                shaped.answer_none own.silent]
              exact (runs _).trans (runs' fuel)
            · intro b member
              rcases known' b member with inside | isBarren
              · rcases known b inside with old | isBarren
                · rcases List.mem_cons.mp old with same | old
                  · exact .inr (shaped.key_shape b a same ▸ own)
                  · exact .inl old
                · exact .inr isBarren
              · exact .inr isBarren

/-- The search ends at the first node that declares. What was seen before is barren, or above all of the
nodes. -/
theorem search_first (shaped : Shaped key children answer parents declares shape rank)
    {shapes : List S} {t : S} (first : First parents declares shapes t) :
    ∀ (nodes rest : List α) (seen : List κ) (n : Nat), nodes.map shape = shapes →
      (∀ a ∈ nodes, rank (shape a) < n) →
      (∀ a, key a ∈ seen → Barren parents declares (shape a) ∨ n ≤ rank (shape a)) →
      ∃ cost r, (∀ fuel, search key children answer (fuel + cost) (nodes.reverse ++ rest) seen =
          some (some r)) ∧ ∃ a, shape a = t ∧ answer a = some r := by
  -- what every node on the way needs: it is reached, and it is new
  have reach {front back : List S} {s : S} (behind : ∀ b ∈ back, Barren parents declares b)
      (open_ : ¬ Barren parents declares s) (nodes rest : List α) (seen : List κ) (n : Nat)
      (shapes : nodes.map shape = front ++ s :: back) (below : ∀ a ∈ nodes, rank (shape a) < n)
      (clean : ∀ a, key a ∈ seen → Barren parents declares (shape a) ∨ n ≤ rank (shape a)) :
      ∃ before a cost seen', shape a = s ∧ rank s < n ∧ key a ∉ seen' ∧
        (∀ fuel, search key children answer (fuel + cost) (nodes.reverse ++ rest) seen =
          search key children answer fuel (a :: before) seen') ∧
        ∀ b, key b ∈ seen' → Barren parents declares (shape b) ∨ n ≤ rank (shape b) := by
    obtain ⟨nodesFront, tail, rfl, _, tailShapes⟩ := List.map_eq_append_iff.mp shapes
    obtain ⟨a, nodesBack, rfl, rfl, rfl⟩ := List.map_eq_cons_iff.mp tailShapes
    have own := below a (List.mem_append_right _ List.mem_cons_self)
    have backBelow : ∀ b ∈ nodesBack, rank (shape b) < n := fun b member =>
      below b (List.mem_append_right _ (List.mem_cons_of_mem _ member))
    have backBarren : ∀ b ∈ nodesBack, Barren parents declares (shape b) := fun b member =>
      behind _ (List.mem_map_of_mem member)
    obtain ⟨cost, seen', runs, known⟩ :=
      search_barren shaped n nodesBack (a :: (nodesFront.reverse ++ rest)) seen backBelow backBarren
    have clean' : ∀ b, key b ∈ seen' → Barren parents declares (shape b) ∨ n ≤ rank (shape b) := by
      intro b member
      rcases known b member with old | isBarren
      · exact clean b old
      · exact .inl isBarren
    refine ⟨nodesFront.reverse ++ rest, a, cost, seen', rfl, own, ?_, ?_, clean'⟩
    · intro member
      rcases clean' a member with isBarren | above
      · exact open_ isBarren
      · exact absurd own (Nat.not_lt_of_le above)
    · intro fuel
      rw [← runs fuel]
      simp
  induction first with
  | @found front back s behind here =>
      intro nodes rest seen n shapes below clean
      obtain ⟨before, a, cost, seen', rfl, -, new, runs, -⟩ :=
        reach behind (fun barren => barren.silent here) nodes rest seen n shapes below clean
      obtain ⟨r, answers⟩ := Option.isSome_iff_exists.mp ((shaped.answer_iff a).mpr here)
      refine ⟨1 + cost, r, ?_, a, rfl, answers⟩
      intro fuel
      rw [← Nat.add_assoc, runs, search, if_neg new, answers]
  | @through front back s t behind silent first ih =>
      intro nodes rest seen n shapes below clean
      have open_ : ¬ Barren parents declares s := by
        intro barren
        obtain ⟨holds, p, edge, leads⟩ := first.leads
        exact barren _ (leads.parent edge) holds
      obtain ⟨before, a, cost, seen', rfl, own, new, runs, clean'⟩ :=
        reach behind open_ nodes rest seen n shapes below clean
      have childBelow : ∀ c ∈ children a, rank (shape c) < rank (shape a) := fun c member =>
        shaped.acyclic _ _ (shaped.mem_parents member)
      have cleanBelow : ∀ b, key b ∈ key a :: seen' →
          Barren parents declares (shape b) ∨ rank (shape a) ≤ rank (shape b) := by
        intro b member
        rcases List.mem_cons.mp member with same | old
        · exact .inr (Nat.le_of_eq (congrArg rank (shaped.key_shape b a same)).symm)
        · rcases clean' b old with isBarren | above
          · exact .inl isBarren
          · exact .inr (Nat.le_of_lt (Nat.lt_of_lt_of_le own above))
      obtain ⟨cost', r, finds, found⟩ :=
        ih (children a) before (key a :: seen') _ (shaped.children_shape a) childBelow cleanBelow
      refine ⟨cost' + 1 + cost, r, ?_, found⟩
      intro fuel
      rw [← Nat.add_assoc, ← Nat.add_assoc, runs, search, if_neg new, shaped.answer_none silent]
      exact finds fuel

/-- A search comes to an end: without an answer if all of its nodes are barren, and else with that of the
first node that declares. -/
theorem search_decided (shaped : Shaped key children answer parents declares shape rank)
    (nodes : List α) :
    ∃ result cost,
      (∀ fuel, search key children answer (fuel + cost) nodes.reverse [] = some result) ∧
      ((∀ a ∈ nodes, Barren parents declares (shape a)) → result = none) ∧
      ∀ t, First parents declares (nodes.map shape) t →
        ∃ a r, shape a = t ∧ answer a = some r ∧ result = some r := by
  obtain ⟨n, below⟩ := exists_rank_bound rank (nodes.map shape)
  have low : ∀ a ∈ nodes, rank (shape a) < n := fun a member =>
    below _ (List.mem_map_of_mem member)
  have ends (t : S) (first : First parents declares (nodes.map shape) t) :
      ∃ cost r, (∀ fuel, search key children answer (fuel + cost) nodes.reverse [] =
        some (some r)) ∧ ∃ a, shape a = t ∧ answer a = some r := by
    have found := search_first shaped first nodes [] [] n rfl low
      fun a member => absurd member List.not_mem_nil
    rw [List.append_nil] at found
    exact found
  have decided : (∀ s ∈ nodes.map shape, Barren parents declares s) ∨
      ∃ t, First parents declares (nodes.map shape) t :=
    barren_or_first shaped.acyclic (nodes.map shape)
  rcases decided with barren | ⟨t, first⟩
  · have all : ∀ a ∈ nodes, Barren parents declares (shape a) := fun a member =>
      barren _ (List.mem_map_of_mem member)
    obtain ⟨cost, seen, runs, -⟩ := search_barren shaped n nodes [] [] low all
    refine ⟨none, 1 + cost, ?_, fun _ => rfl, ?_⟩
    · intro fuel
      rw [List.append_nil] at runs
      rw [← Nat.add_assoc, runs, search]
    · intro t first
      obtain ⟨holds, s, member, leads⟩ := first.leads
      exact absurd holds (barren s member t leads)
  · obtain ⟨cost, r, runs, found⟩ := ends t first
    refine ⟨some r, cost, runs, ?_, ?_⟩
    · intro all
      obtain ⟨holds, s, member, leads⟩ := first.leads
      obtain ⟨a, inside, rfl⟩ := List.mem_map.mp member
      exact absurd holds (all a inside t leads)
    · intro t' first'
      obtain ⟨cost', r', runs', a, shaped', answers⟩ := ends t' first'
      have other := runs' cost
      rw [Nat.add_comm, runs cost'] at other
      exact ⟨a, r', shaped', answers, Option.some.inj other⟩

end StackSearch
