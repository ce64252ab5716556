/-
Module: CaffeineLs.Lib.Reactive
Purpose: Reactive systems: runs of a state that answers each input with outputs, the history they leave,
  and the rules to reason about them.
Trusted boundary: none
Main exports: Step, Run, replay
-/

namespace Reactive

variable {S I O : Type}

structure Step (I O : Type) where
  input : I
  outputs : List O
deriving DecidableEq, Repr

/-- What happened so far, the newest step first. -/
abbrev History (I O : Type) := List (Step I O)

section Run

variable (react : S → I → S × List O) (Allowed : History I O → S → I → Prop) (start : S)

/-- The histories and states reached from the start by inputs that are allowed when they come. -/
inductive Run : History I O → S → Prop where
  | start : Run [] start
  | next {history : History I O} {s : S} (ran : Run history s) {input : I}
      (allowed : Allowed history s input) :
      Run (⟨input, (react s input).2⟩ :: history) (react s input).1

/-- The history and the state after all the inputs, from a history and a state. -/
def replay : History I O → S → List I → History I O × S
  | history, s, [] => (history, s)
  | history, s, input :: rest =>
      replay (⟨input, (react s input).2⟩ :: history) (react s input).1 rest

/-- Every input of the list is allowed when it comes. -/
def AllAllowed : History I O → S → List I → Prop
  | _, _, [] => True
  | history, s, input :: rest =>
      Allowed history s input ∧
        AllAllowed (⟨input, (react s input).2⟩ :: history) (react s input).1 rest

/-- The property holds before the inputs and after each of them. -/
def AllStates (P : History I O → S → Prop) : History I O → S → List I → Prop
  | history, s, [] => P history s
  | history, s, input :: rest =>
      P history s ∧ AllStates P (⟨input, (react s input).2⟩ :: history) (react s input).1 rest

end Run

variable {react : S → I → S × List O} {Allowed : History I O → S → I → Prop} {start : S}

/-- The property holds of every step, with what came before it. -/
def Everywhere (P : History I O → Step I O → Prop) : History I O → Prop
  | [] => True
  | step :: earlier => P earlier step ∧ Everywhere P earlier

/-- What holds at the start and is kept by every step holds throughout. -/
theorem Run.invariant {Inv : History I O → S → Prop} (initially : Inv [] start)
    (kept : ∀ history s input, Inv history s → Allowed history s input →
      Inv (⟨input, (react s input).2⟩ :: history) (react s input).1)
    {history : History I O} {s : S} (ran : Run react Allowed start history s) :
    Inv history s := by
  induction ran with
  | start => exact initially
  | next _ allowed ih => exact kept _ _ _ ih allowed

/-- What an invariant guarantees of each step holds of every step of a run. -/
theorem Run.everywhere {Inv : History I O → S → Prop} {P : History I O → Step I O → Prop}
    (initially : Inv [] start)
    (kept : ∀ history s input, Inv history s → Allowed history s input →
      Inv (⟨input, (react s input).2⟩ :: history) (react s input).1)
    (each : ∀ history s input, Inv history s → Allowed history s input →
      P history ⟨input, (react s input).2⟩)
    {history : History I O} {s : S} (ran : Run react Allowed start history s) :
    Everywhere P history := by
  induction ran with
  | start => trivial
  | next ran allowed ih =>
      exact ⟨each _ _ _ (ran.invariant initially kept) allowed, ih⟩

theorem run_replay {history : History I O} {s : S} (ran : Run react Allowed start history s)
    {inputs : List I} (allowed : AllAllowed react Allowed history s inputs) :
    Run react Allowed start (replay react history s inputs).1
      (replay react history s inputs).2 := by
  induction inputs generalizing history s with
  | nil => exact ran
  | cons input rest ih => exact ih (ran.next allowed.1) allowed.2

/-- Where a step keeps the property exactly when it meets the condition, it holds in every state exactly
when every step meets the condition. -/
theorem allStates_iff {Inv P : History I O → S → Prop} {Cond : History I O → S → I → Prop}
    (kept : ∀ history s input, Inv history s → Allowed history s input →
      Inv (⟨input, (react s input).2⟩ :: history) (react s input).1)
    (stepwise : ∀ history s input, Inv history s → Allowed history s input → P history s →
      (P (⟨input, (react s input).2⟩ :: history) (react s input).1 ↔ Cond history s input))
    {history : History I O} {s : S} (inv : Inv history s) (holds : P history s) {inputs : List I}
    (allowed : AllAllowed react Allowed history s inputs) :
    AllStates react P history s inputs ↔ AllAllowed react Cond history s inputs := by
  induction inputs generalizing history s with
  | nil => exact ⟨fun _ => trivial, fun _ => holds⟩
  | cons input rest ih =>
      obtain ⟨here, later⟩ := allowed
      have step := stepwise history s input inv here holds
      have next := kept history s input inv here
      constructor
      · intro ⟨_, all⟩
        have after : P (⟨input, (react s input).2⟩ :: history) (react s input).1 := by
          cases rest with
          | nil => exact all
          | cons _ _ => exact all.1
        exact ⟨step.mp after, (ih next after later).mp all⟩
      · intro ⟨meets, all⟩
        have after := step.mpr meets
        exact ⟨holds, (ih next after later).mpr all⟩

end Reactive
