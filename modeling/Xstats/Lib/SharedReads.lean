/-
**A variable read several times in one pass while others write it.**

A pass is a `Program`: it reads the variable, goes on with what it found, and ends with a result. Other
parties write the variable between any two of its steps. What a pass computes then depends on a list of
values, one for each of its reads, which need not be the same.

* `PassesInv.step`: what a step keeps, of a condition that every write keeps.
* `finished_spec`: of each pass of a run, its result is what its program gives for the values it read,
  and they all meet the condition.
-/

import Xstats.Lib.Transition

namespace SharedReads

open Transition

/-- A computation that reads the variable, each time anew. -/
inductive Program (V R : Type)
  | done (result : R)
  | read (next : V → Program V R)

namespace Program

variable {V R : Type}

/-- What is left after some reads, `none` if there are more than the program makes. -/
def feed : Program V R → List V → Option (Program V R)
  | p, [] => some p
  | .done _, _ :: _ => none
  | .read next, v :: rest => (next v).feed rest

end Program

/-- A pass: what it was begun with, and the values it read. -/
structure Pass (ι V : Type) where
  input : ι
  reads : List V
  deriving DecidableEq, Repr

/-- The variable, the pass under way, and those that have ended, with their results. -/
structure State (ι V R : Type) where
  value : V
  current : Option (Pass ι V)
  finished : List (Pass ι V × R)
  deriving DecidableEq, Repr

inductive Action (ι ω : Type)
  /-- Another party writes. -/
  | write (w : ω)
  /-- A pass begins. -/
  | start (input : ι)
  | read
  /-- The pass has read all it reads, and ends with its result. -/
  | finish

section System

variable {ι ω V R : Type} (program : ι → Program V R) (store : ω → V → V)

/-- The state before the first pass. -/
def State.initial (value : V) : State ι V R := ⟨value, none, []⟩

/-- What is left of the program of a pass. -/
def Pass.left (pass : Pass ι V) : Option (Program V R) := (program pass.input).feed pass.reads

def step (s : State ι V R) : Action ι ω → Option (State ι V R)
  | .write w => some { s with value := store w s.value }
  | .start input =>
    match s.current with
    | none => some { s with current := some ⟨input, []⟩ }
    | some _ => none
  | .read => do
    let pass ← s.current
    match pass.left program with
    | some (.read _) => some { s with current := some { pass with reads := pass.reads ++ [s.value] } }
    | _ => none
  | .finish => do
    let pass ← s.current
    match pass.left program with
    | some (.done result) => some { s with current := none, finished := s.finished ++ [(pass, result)] }
    | _ => none

variable {program store} {good : V → Prop}

/-- The values read are good, and every result is that of the values its pass read. -/
structure PassesInv (program : ι → Program V R) (good : V → Prop) (s : State ι V R) : Prop where
  value : good s.value
  current : ∀ pass ∈ s.current, ∀ v ∈ pass.reads, good v
  finished : ∀ x ∈ s.finished, x.1.left program = some (.done x.2) ∧ ∀ v ∈ x.1.reads, good v

theorem PassesInv.step (keeps : ∀ w v, good v → good (store w v)) {s s' : State ι V R}
    {a : Action ι ω} (inv : PassesInv program good s)
    (taken : SharedReads.step program store s a = some s') : PassesInv program good s' := by
  cases a with
  | write w =>
    cases taken
    exact ⟨keeps w _ inv.value, inv.current, inv.finished⟩
  | start input =>
    simp only [SharedReads.step] at taken
    split at taken
    · cases taken
      refine ⟨inv.value, fun pass here => ?_, inv.finished⟩
      cases here
      simp
    · cases taken
  | read =>
    obtain ⟨pass, here, taken⟩ := Option.bind_eq_some_iff.mp taken
    split at taken
    · cases taken
      refine ⟨inv.value, fun later same => ?_, inv.finished⟩
      cases same
      intro v member
      rcases List.mem_append.mp member with old | new
      · exact inv.current pass here v old
      · rw [List.mem_singleton.mp new]
        exact inv.value
    · cases taken
  | finish =>
    obtain ⟨pass, here, taken⟩ := Option.bind_eq_some_iff.mp taken
    split at taken
    · rename_i result left
      cases taken
      refine ⟨inv.value, fun _ none => (by cases none), fun x member => ?_⟩
      rcases List.mem_append.mp member with old | new
      · exact inv.finished x old
      · rw [List.mem_singleton.mp new]
        exact ⟨left, inv.current pass here⟩
    · cases taken

/-- **The passes of a run.** -/
theorem finished_spec {value : V} {trace : List (State ι V R × Action ι ω)} {s : State ι V R}
    (run : Run (SharedReads.step program store) (.initial value) trace s) (init : good value)
    (keeps : ∀ w v, good v → good (store w v)) :
    ∀ x ∈ s.finished, (program x.1.input).feed x.1.reads = some (.done x.2) ∧
      ∀ v ∈ x.1.reads, good v := by
  have inv : PassesInv program good s :=
    run.invariant (fun _ _ => True)
      ⟨init, fun _ none => (by cases none), fun _ none => (by cases none)⟩
      (fun _ _ _ before _ taken => before.step keeps taken) fun _ _ => trivial
  exact inv.finished

end System

end SharedReads
