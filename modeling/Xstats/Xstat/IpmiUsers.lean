/-
**The users of the IPMI driver** (`xstat_register_bmc`, `xstat_ipmi_restart`, `xstat_ipmi_exit`).

The driver announces an interface by a call of `xstat_register_bmc`, which creates a user for every group
that has none. The samplers make their requests with the user they found when they entered
`xstat_ipmi_restart`, and take a group's lock for its message id alone. `xstat_ipmi_exit` takes each
group's user away under that lock, destroys it without, and unregisters the watcher last. The test and
the creation in `xstat_register_bmc` hold no lock.

A step is one access to a variable that is shared, one call into the driver, or one acquisition or
release of a lock. Of the driver the model takes: it gives every user it creates a name of its own and
stores it where it was asked to, calls of `xstat_register_bmc` may overlap, and
`ipmi_smi_watcher_unregister` waits for those under way and lets none follow.

* `UsersInv.step`: a pointer in a group, and the one that `xstat_ipmi_exit` holds, name users of that
  group that are not destroyed.
* `users_destroyed_once`: no user is destroyed twice, none that a group still names, none that was not
  created.
* `no_user_left_iff`: every user is destroyed when `xstat_ipmi_exit` has returned if and only if no user
  was stored over another one, or into a group that `xstat_ipmi_exit` had read.

What the requests read and return is left to the readings of a run.
-/

import Xstats.Xstat.IpmiRun

namespace Xstats.Xstat

open Transition

/-! ### State -/

/-- Where a call of `xstat_register_bmc` is. -/
inductive RegisterPc (n : Nat)
  /-- Before the test of iteration `i`, or before the return. -/
  | test (i : Nat)
  /-- In iteration `g`, which found no user. -/
  | create (g : Fin n)
  | returned
  deriving DecidableEq, Repr

/-- Where a sampler is in `xstat_ipmi_restart`, with the `user` it found. -/
inductive RestartPc (n : Nat)
  | idle
  /-- With `k` iterations to go. -/
  | loop (g : Fin n) (user : Option Nat) (k : Nat)
  /-- In iteration `i`, holding the lock. -/
  | locked (g : Fin n) (user i : Nat)
  /-- It has read `ctx->msgid`. -/
  | loaded (g : Fin n) (user i : Nat) (msgid : BitVec 32)
  /-- It has stored the next one. `serial` is a ghost: how many ids the group gave out before. -/
  | stored (g : Fin n) (user i : Nat) (msgid : BitVec 32) (serial : Nat)
  /-- Before its request. -/
  | unlocked (g : Fin n) (user i : Nat) (msgid : BitVec 32) (serial : Nat)
  deriving DecidableEq, Repr

/-- Where `xstat_ipmi_exit` stands. -/
inductive IpmiExitPc (n : Nat)
  | notCalled
  /-- Before iteration `i`, or before `ipmi_smi_watcher_unregister`. -/
  | loop (i : Nat)
  | locked (g : Fin n)
  /-- It has read `ctx->user`. -/
  | loaded (g : Fin n) (user : Option Nat)
  /-- It has cleared `ctx->user`. -/
  | cleared (g : Fin n) (user : Option Nat)
  /-- Before `ipmi_destroy_user`. -/
  | unlocked (g : Fin n) (user : Option Nat)
  | returned
  deriving DecidableEq, Repr

/-- The holder of a group's lock. The code tests only whether there is one. -/
inductive LockHolder
  | sampler (tid : Nat)
  | exit
  deriving DecidableEq, Repr

/-- A request, with the user it was made with. `group`, `serial` and `living` are ghosts: whose it is,
which of the group's message ids it carries, and that its user was not destroyed. -/
structure UserRequest (n : Nat) where
  group : Fin n
  user : Nat
  request : IpmiRequest
  serial : Nat
  living : Bool
  deriving DecidableEq, Repr

/-- The groups' variables, the parties, and what the driver was asked for. -/
structure UsersState (n : Nat) where
  user : Fin n → Option Nat
  msgid : Fin n → BitVec 32
  lock : Fin n → Option LockHolder
  watched : Bool
  calls : List (RegisterPc n)
  samplers : Nat → RestartPc n
  exit : IpmiExitPc n
  /-- The groups that users were created for: entry `u` is that of user `u`. -/
  created : List (Fin n)
  destroyed : List Nat
  /-- How many message ids each group gave out. -/
  handed : Fin n → Nat
  requests : List (UserRequest n)

inductive UsersAction (n : Nat)
  /-- The driver announces an interface. -/
  | newSmi
  /-- The next step of a call of `xstat_register_bmc`; `created` says whether `ipmi_create_user`
  succeeds. -/
  | registerBmc (call : Nat) (created : Bool)
  /-- A sampler enters `xstat_ipmi_restart`. -/
  | restart (tid : Nat) (g : Fin n)
  /-- Its next step there. -/
  | sampler (tid : Nat)
  /-- The next step of `xstat_ipmi_exit`. -/
  | exit
  deriving DecidableEq, Repr

namespace UsersState

variable {n : Nat}

/-- The state that `xstat_ipmi_init` leaves: the watcher is registered. -/
def start (n : Nat) : UsersState n :=
  { user := fun _ => none, msgid := fun _ => 0, lock := fun _ => none, watched := true, calls := []
    samplers := fun _ => .idle, exit := .notCalled, created := [], destroyed := []
    handed := fun _ => 0, requests := [] }

/-! ### Steps -/

/-- A call of `xstat_register_bmc` moved. -/
def setCall (s : UsersState n) (call : Nat) (pc : RegisterPc n) : UsersState n :=
  { s with calls := s.calls.set call pc }

/-- A sampler moved. -/
def setSampler (s : UsersState n) (tid : Nat) (pc : RestartPc n) : UsersState n :=
  { s with samplers := Function.update s.samplers tid pc }

def setLock (s : UsersState n) (g : Fin n) (holder : Option LockHolder) : UsersState n :=
  { s with lock := Function.update s.lock g holder }

/-- `ipmi_create_user`, when it succeeds. -/
def createUser (s : UsersState n) (g : Fin n) : UsersState n :=
  { s with user := Function.update s.user g (some s.created.length), created := s.created ++ [g] }

/-- The second half of `ctx->msgid++`. -/
def storeMsgid (s : UsersState n) (g : Fin n) (msgid : BitVec 32) : UsersState n :=
  { s with
    msgid := Function.update s.msgid g msgid
    handed := Function.update s.handed g (s.handed g + 1) }

/-- `ipmi_request_settime`. -/
def request (s : UsersState n) (groups : Fin n → IpmiGroup) (g : Fin n) (user i : Nat)
    (config : IpmiSensorConfig) (msgid : BitVec 32) (serial : Nat) : UsersState n :=
  { s with requests := s.requests ++ [{
      group := g, user, request := (groups g).request msgid i config, serial
      living := decide (user ∉ s.destroyed) }] }

/-- A step of a call of `xstat_register_bmc`. -/
def stepCall (s : UsersState n) (call : Nat) (created : Bool) : Option (UsersState n) :=
  match s.calls[call]? with
  | some (.test i) =>
    if inside : i < n then
      some (s.setCall call
        (if s.user ⟨i, inside⟩ = none then .create ⟨i, inside⟩ else .test (i + 1)))
    else some (s.setCall call .returned)
  | some (.create g) => some ((if created then s.createUser g else s).setCall call (.test (g + 1)))
  | _ => none

/-- A step of a sampler in `xstat_ipmi_restart`. -/
def stepSampler (s : UsersState n) (groups : Fin n → IpmiGroup) (tid : Nat) : Option (UsersState n) :=
  match s.samplers tid with
  | .idle => none
  | .loop _ _ 0 => some (s.setSampler tid .idle)
  | .loop g none (i + 1) => some (s.setSampler tid (.loop g none i))
  | .loop g (some user) (i + 1) =>
    if s.lock g = none then
      some ((s.setLock g (some (.sampler tid))).setSampler tid (.locked g user i))
    else none
  | .locked g user i => some (s.setSampler tid (.loaded g user i (s.msgid g)))
  | .loaded g user i msgid =>
    some ((s.storeMsgid g (msgid + 1)).setSampler tid (.stored g user i msgid (s.handed g)))
  | .stored g user i msgid serial =>
    some ((s.setLock g none).setSampler tid (.unlocked g user i msgid serial))
  | .unlocked g user i msgid serial =>
    (groups g).ctx.ctxs[i]?.map fun config =>
      (s.request groups g user i config msgid serial).setSampler tid (.loop g (some user) i)

/-- A step of `xstat_ipmi_exit`. -/
def stepExit (s : UsersState n) : Option (UsersState n) :=
  match s.exit with
  | .notCalled => some { s with exit := .loop 0 }
  | .loop i =>
    if inside : i < n then
      if s.lock ⟨i, inside⟩ = none then
        some { s.setLock ⟨i, inside⟩ (some .exit) with exit := .locked ⟨i, inside⟩ }
      else none
    else if s.calls.all (· == .returned) then some { s with watched := false, exit := .returned }
    else none
  | .locked g => some { s with exit := .loaded g (s.user g) }
  | .loaded g user =>
    some { s with user := Function.update s.user g none, exit := .cleared g user }
  | .cleared g user => some { s.setLock g none with exit := .unlocked g user }
  | .unlocked g user =>
    some { s with destroyed := s.destroyed ++ user.toList, exit := .loop (g + 1) }
  | .returned => none

/-- The step function. -/
def step (groups : Fin n → IpmiGroup) (s : UsersState n) : UsersAction n → Option (UsersState n)
  | .newSmi => if s.watched then some { s with calls := s.calls ++ [.test 0] } else none
  | .registerBmc call created => s.stepCall call created
  | .restart tid g =>
    if s.samplers tid = .idle then
      some (s.setSampler tid (.loop g (s.user g) (groups g).ctx.nctxs))
    else none
  | .sampler tid => s.stepSampler groups tid
  | .exit => s.stepExit

/-- The steps, one constructor for each. -/
inductive Move (groups : Fin n → IpmiGroup) (s : UsersState n) : UsersAction n → UsersState n → Prop
  | announces (watched : s.watched = true) :
      Move groups s .newSmi { s with calls := s.calls ++ [.test 0] }
  | finds {call created i u} (here : s.calls[call]? = some (.test i)) (inside : i < n)
      (there : s.user ⟨i, inside⟩ = some u) :
      Move groups s (.registerBmc call created) (s.setCall call (.test (i + 1)))
  | lacks {call created i} (here : s.calls[call]? = some (.test i)) (inside : i < n)
      (absent : s.user ⟨i, inside⟩ = none) :
      Move groups s (.registerBmc call created) (s.setCall call (.create ⟨i, inside⟩))
  | callReturns {call created i} (here : s.calls[call]? = some (.test i)) (beyond : n ≤ i) :
      Move groups s (.registerBmc call created) (s.setCall call .returned)
  | creates {call g} (here : s.calls[call]? = some (.create g)) :
      Move groups s (.registerBmc call true) ((s.createUser g).setCall call (.test (g + 1)))
  | createFails {call g} (here : s.calls[call]? = some (.create g)) :
      Move groups s (.registerBmc call false) (s.setCall call (.test (g + 1)))
  | enters {tid g} (here : s.samplers tid = .idle) :
      Move groups s (.restart tid g) (s.setSampler tid (.loop g (s.user g) (groups g).ctx.nctxs))
  | leaves {tid g user} (here : s.samplers tid = .loop g user 0) :
      Move groups s (.sampler tid) (s.setSampler tid .idle)
  | passes {tid g i} (here : s.samplers tid = .loop g none (i + 1)) :
      Move groups s (.sampler tid) (s.setSampler tid (.loop g none i))
  | locks {tid g user i} (here : s.samplers tid = .loop g (some user) (i + 1))
      (free : s.lock g = none) :
      Move groups s (.sampler tid)
        ((s.setLock g (some (.sampler tid))).setSampler tid (.locked g user i))
  | loads {tid g user i} (here : s.samplers tid = .locked g user i) :
      Move groups s (.sampler tid) (s.setSampler tid (.loaded g user i (s.msgid g)))
  | stores {tid g user i msgid} (here : s.samplers tid = .loaded g user i msgid) :
      Move groups s (.sampler tid)
        ((s.storeMsgid g (msgid + 1)).setSampler tid (.stored g user i msgid (s.handed g)))
  | unlocks {tid g user i msgid serial} (here : s.samplers tid = .stored g user i msgid serial) :
      Move groups s (.sampler tid)
        ((s.setLock g none).setSampler tid (.unlocked g user i msgid serial))
  | requests {tid g user i msgid serial config}
      (here : s.samplers tid = .unlocked g user i msgid serial)
      (entry : (groups g).ctx.ctxs[i]? = some config) :
      Move groups s (.sampler tid)
        ((s.request groups g user i config msgid serial).setSampler tid (.loop g (some user) i))
  | exitBegins (here : s.exit = .notCalled) : Move groups s .exit { s with exit := .loop 0 }
  | exitLocks {i} (here : s.exit = .loop i) (inside : i < n) (free : s.lock ⟨i, inside⟩ = none) :
      Move groups s .exit
        { s.setLock ⟨i, inside⟩ (some .exit) with exit := .locked ⟨i, inside⟩ }
  | exitLoads {g} (here : s.exit = .locked g) :
      Move groups s .exit { s with exit := .loaded g (s.user g) }
  | exitClears {g user} (here : s.exit = .loaded g user) :
      Move groups s .exit
        { s with user := Function.update s.user g none, exit := .cleared g user }
  | exitUnlocks {g user} (here : s.exit = .cleared g user) :
      Move groups s .exit { s.setLock g none with exit := .unlocked g user }
  | exitDestroys {g user} (here : s.exit = .unlocked g user) :
      Move groups s .exit
        { s with destroyed := s.destroyed ++ user.toList, exit := .loop (g + 1) }
  | exitReturns {i} (here : s.exit = .loop i) (beyond : n ≤ i)
      (quiet : s.calls.all (· == .returned) = true) :
      Move groups s .exit { s with watched := false, exit := .returned }

variable {groups : Fin n → IpmiGroup} {s s' : UsersState n}

theorem move_of_stepCall {call : Nat} {created : Bool} (taken : s.stepCall call created = some s') :
    Move groups s (.registerBmc call created) s' := by
  unfold stepCall at taken
  cases here : s.calls[call]? with
  | none =>
    simp only [here] at taken
    cases taken
  | some pc =>
    cases pc with
    | test i =>
      simp only [here] at taken
      by_cases inside : i < n
      · rw [dif_pos inside] at taken
        cases found : s.user ⟨i, inside⟩ with
        | none =>
          simp only [found, if_true] at taken
          cases taken
          exact .lacks here inside found
        | some u =>
          simp only [found, reduceCtorEq, if_false] at taken
          cases taken
          exact .finds here inside found
      · rw [dif_neg inside] at taken
        cases taken
        exact .callReturns here (Nat.le_of_not_lt inside)
    | create g =>
      simp only [here] at taken
      cases created with
      | true =>
        cases taken
        exact .creates here
      | false =>
        cases taken
        exact .createFails here
    | returned =>
      simp only [here] at taken
      cases taken

theorem move_of_stepSampler {tid : Nat} (taken : s.stepSampler groups tid = some s') :
    Move groups s (.sampler tid) s' := by
  unfold stepSampler at taken
  cases here : s.samplers tid with
  | idle =>
    simp only [here] at taken
    cases taken
  | loop g user k =>
    cases k with
    | zero =>
      simp only [here] at taken
      cases taken
      exact .leaves here
    | succ i =>
      cases user with
      | none =>
        simp only [here] at taken
        cases taken
        exact .passes here
      | some user =>
        simp only [here] at taken
        obtain ⟨free, step⟩ := Option.ite_none_right_eq_some.mp taken
        cases step
        exact .locks here free
  | locked g user i =>
    simp only [here] at taken
    cases taken
    exact .loads here
  | loaded g user i msgid =>
    simp only [here] at taken
    cases taken
    exact .stores here
  | stored g user i msgid serial =>
    simp only [here] at taken
    cases taken
    exact .unlocks here
  | unlocked g user i msgid serial =>
    simp only [here] at taken
    obtain ⟨config, entry, rfl⟩ := Option.map_eq_some_iff.mp taken
    exact .requests here entry

theorem move_of_stepExit (taken : s.stepExit = some s') : Move groups s .exit s' := by
  unfold stepExit at taken
  cases here : s.exit with
  | loop i =>
    simp only [here] at taken
    by_cases inside : i < n
    · rw [dif_pos inside] at taken
      obtain ⟨free, step⟩ := Option.ite_none_right_eq_some.mp taken
      cases step
      exact .exitLocks here inside free
    · rw [dif_neg inside] at taken
      obtain ⟨quiet, step⟩ := Option.ite_none_right_eq_some.mp taken
      cases step
      exact .exitReturns here (Nat.le_of_not_lt inside) quiet
  | returned =>
    simp only [here] at taken
    cases taken
  | notCalled =>
    simp only [here] at taken
    cases taken
    exact .exitBegins here
  | locked g =>
    simp only [here] at taken
    cases taken
    exact .exitLoads here
  | loaded g user =>
    simp only [here] at taken
    cases taken
    exact .exitClears here
  | cleared g user =>
    simp only [here] at taken
    cases taken
    exact .exitUnlocks here
  | unlocked g user =>
    simp only [here] at taken
    cases taken
    exact .exitDestroys here

theorem move_of_step {a : UsersAction n} (taken : s.step groups a = some s') :
    Move groups s a s' := by
  cases a with
  | newSmi =>
    obtain ⟨watched, step⟩ := Option.ite_none_right_eq_some.mp taken
    cases step
    exact .announces watched
  | registerBmc call created => exact move_of_stepCall taken
  | restart tid g =>
    obtain ⟨here, step⟩ := Option.ite_none_right_eq_some.mp taken
    cases step
    exact .enters here
  | sampler tid => exact move_of_stepSampler taken
  | exit => exact move_of_stepExit taken

end UsersState

/-! ### Who names a user -/

/-- The user that a sampler has in hand, with its group. -/
def RestartPc.inHand {n : Nat} : RestartPc n → Option (Fin n × Nat)
  | .idle => none
  | .loop g user _ => user.map (Prod.mk g)
  | .locked g user _ | .loaded g user _ _ | .stored g user _ _ _ | .unlocked g user _ _ _ =>
    some (g, user)

/-- The user that `xstat_ipmi_exit` has in hand. -/
def IpmiExitPc.inHand {n : Nat} : IpmiExitPc n → Option (Fin n × Nat)
  | .loaded g user | .cleared g user | .unlocked g user => user.map (Prod.mk g)
  | _ => none

/-- The same, once it has cleared the group's pointer. -/
def IpmiExitPc.taken {n : Nat} : IpmiExitPc n → Option (Fin n × Nat)
  | .cleared g user | .unlocked g user => user.map (Prod.mk g)
  | _ => none

theorem inHand_of_taken {n : Nat} {pc : IpmiExitPc n} {x : Fin n × Nat} (taken : pc.taken = some x) :
    pc.inHand = some x := by
  cases pc with
  | cleared | unlocked => exact taken
  | notCalled | loop | locked | loaded | returned => cases taken

/-- What the pointers of the groups, of the samplers and of `xstat_ipmi_exit` name. -/
structure UsersInv {n : Nat} (s : UsersState n) : Prop where
  named : ∀ g u, s.user g = some u → s.created[u]? = some g ∧ u ∉ s.destroyed
  exiting : ∀ g u, s.exit.inHand = some (g, u) → s.created[u]? = some g ∧ u ∉ s.destroyed
  taken : ∀ g u, s.exit.taken = some (g, u) → s.user g ≠ some u
  destroyed : ∀ u ∈ s.destroyed, u < s.created.length
  once : s.destroyed.Nodup
  sampling : ∀ tid g u, (s.samplers tid).inHand = some (g, u) → s.created[u]? = some g

namespace UsersInv

variable {n : Nat} {groups : Fin n → IpmiGroup} {s s' : UsersState n}

theorem start (n : Nat) : UsersInv (UsersState.start n) where
  named := fun _ _ named => by cases named
  exiting := fun _ _ held => by cases held
  taken := fun _ _ held => by cases held
  destroyed := fun _ member => by cases member
  once := .nil
  sampling := fun _ _ _ held => by cases held

/-- A sampler moved that has in hand what it had, or what its group names, or nothing. -/
theorem setSampler (inv : UsersInv s) {tid : Nat} {pc : RestartPc n}
    (held : ∀ g u, pc.inHand = some (g, u) → s.created[u]? = some g) :
    UsersInv (s.setSampler tid pc) := by
  refine { inv with sampling := fun t g u inHand => ?_ }
  change (Function.update s.samplers tid pc t).inHand = _ at inHand
  rw [Function.update_apply] at inHand
  split at inHand
  · exact held g u inHand
  · exact inv.sampling t g u inHand

/-- A user created: its name is new. -/
theorem createUser (inv : UsersInv s) (g : Fin n) : UsersInv (s.createUser g) := by
  have older : ∀ {g' : Fin n} {u : Nat}, s.created[u]? = some g' → (s.created ++ [g])[u]? = some g' := by
    intro g' u known
    rw [List.getElem?_append_left (List.getElem?_eq_some_iff.mp known).1]
    exact known
  have fresh : s.created.length ∉ s.destroyed := fun member => Nat.lt_irrefl _ (inv.destroyed _ member)
  constructor
  case named =>
    intro g' u named
    rcases update_eq_iff.mp named with ⟨same, new⟩ | ⟨_, old⟩
    · cases new
      rw [same]
      exact ⟨List.getElem?_concat_length, fresh⟩
    · exact ⟨older (inv.named g' u old).1, (inv.named g' u old).2⟩
  case exiting => exact fun g' u held => ⟨older (inv.exiting g' u held).1, (inv.exiting g' u held).2⟩
  case taken =>
    intro g' u held named
    rcases update_eq_iff.mp named with ⟨_, new⟩ | ⟨_, old⟩
    · cases new
      have known := (inv.exiting g' s.created.length (inHand_of_taken held)).1
      rw [List.getElem?_eq_none (Nat.le_refl _)] at known
      cases known
    · exact inv.taken g' u held old
  case destroyed =>
    intro u member
    show u < (s.created ++ [g]).length
    rw [List.length_append]
    exact Nat.lt_add_right _ (inv.destroyed u member)
  case once => exact inv.once
  case sampling => exact fun tid g' u held => older (inv.sampling tid g' u held)

/-- `xstat_ipmi_exit` moved that has in hand what it had, or nothing. -/
theorem setExit (inv : UsersInv s) {pc : IpmiExitPc n}
    (held : ∀ g u, pc.inHand = some (g, u) → s.created[u]? = some g ∧ u ∉ s.destroyed)
    (taken : ∀ g u, pc.taken = some (g, u) → s.user g ≠ some u) : UsersInv { s with exit := pc } :=
  { inv with exiting := held, taken := taken }

/-- **A step keeps the invariant.** -/
theorem step (inv : UsersInv s) {a : UsersAction n} (taken : s.step groups a = some s') :
    UsersInv s' := by
  have nothing : ∀ g u, (none : Option (Fin n × Nat)) = some (g, u) →
      s.created[u]? = some g ∧ u ∉ s.destroyed := fun _ _ held => by cases held
  have untaken : ∀ g u, (none : Option (Fin n × Nat)) = some (g, u) → s.user g ≠ some u :=
    fun _ _ held => by cases held
  have own : ∀ {tid : Nat} {pc : RestartPc n} {g : Fin n} {user : Nat},
      s.samplers tid = pc → pc.inHand = some (g, user) → s.created[user]? = some g := by
    rintro tid pc g user rfl held
    exact inv.sampling tid g user held
  cases UsersState.move_of_step taken with
  | announces | finds | lacks | callReturns | createFails => exact { inv with }
  | @creates _ g => exact { inv.createUser g with }
  | @enters tid g here =>
    refine inv.setSampler fun g' u held => ?_
    obtain ⟨user, named, pair⟩ := Option.map_eq_some_iff.mp held
    cases pair
    exact (inv.named g u named).1
  | leaves | passes => exact inv.setSampler fun _ _ held => by cases held
  | @locks tid g user i here =>
    have kept : UsersInv (s.setLock g (some (.sampler tid))) := { inv with }
    exact kept.setSampler fun _ _ held => by cases held; exact own here rfl
  | loads here => exact inv.setSampler fun _ _ held => by cases held; exact own here rfl
  | @stores tid g user i msgid here =>
    have kept : UsersInv (s.storeMsgid g (msgid + 1)) := { inv with }
    exact kept.setSampler fun _ _ held => by cases held; exact own here rfl
  | @unlocks tid g user i msgid serial here =>
    have kept : UsersInv (s.setLock g none) := { inv with }
    exact kept.setSampler fun _ _ held => by cases held; exact own here rfl
  | @requests tid g user i msgid serial config here =>
    have kept : UsersInv (s.request groups g user i config msgid serial) := { inv with }
    exact kept.setSampler fun _ _ held => by cases held; exact own here rfl
  | exitBegins => exact inv.setExit nothing untaken
  | exitReturns => exact { inv with exiting := nothing, taken := untaken }
  | exitLocks => exact { inv with exiting := nothing, taken := untaken }
  | @exitLoads g here =>
    refine inv.setExit (fun g' u held => ?_) untaken
    obtain ⟨user, named, pair⟩ := Option.map_eq_some_iff.mp held
    cases pair
    exact inv.named g u named
  | @exitClears g user here =>
    have held : s.exit.inHand = user.map (Prod.mk g) := by rw [here]; rfl
    constructor
    case named =>
      intro g' u named
      rcases update_eq_iff.mp named with ⟨_, new⟩ | ⟨_, old⟩
      · cases new
      · exact inv.named g' u old
    case exiting => exact fun g' u now => inv.exiting g' u (held.trans now)
    case taken =>
      intro g' u now named
      obtain ⟨_, _, pair⟩ := Option.map_eq_some_iff.mp now
      cases pair
      rcases update_eq_iff.mp named with ⟨_, new⟩ | ⟨other, _⟩
      · cases new
      · exact other rfl
    case destroyed => exact inv.destroyed
    case once => exact inv.once
    case sampling => exact inv.sampling
  | @exitUnlocks g user here =>
    have held : s.exit.inHand = user.map (Prod.mk g) := by rw [here]; rfl
    have gone : s.exit.taken = user.map (Prod.mk g) := by rw [here]; rfl
    exact { inv with
      exiting := fun g' u now => inv.exiting g' u (held.trans now)
      taken := fun g' u now => inv.taken g' u (gone.trans now) }
  | @exitDestroys g user here =>
    cases user with
    | none => exact { inv with
        named := fun g' u named => by simpa using inv.named g' u named
        exiting := fun _ _ held => by cases held
        taken := fun _ _ held => by cases held
        destroyed := by simpa using inv.destroyed
        once := by simpa using inv.once }
    | some user =>
      have held : s.exit.inHand = some (g, user) := by rw [here]; rfl
      have gone : s.exit.taken = some (g, user) := by rw [here]; rfl
      obtain ⟨known, living⟩ := inv.exiting g user held
      constructor
      case named =>
        intro g' u named
        obtain ⟨there, alive⟩ := inv.named g' u named
        refine ⟨there, fun member => ?_⟩
        rcases List.mem_append.mp member with old | new
        · exact alive old
        · -- The group that it was created for does not name it any more.
          rw [Option.toList_some, List.mem_singleton] at new
          subst new
          obtain rfl : g' = g := Option.some.inj (there.symm.trans known)
          exact inv.taken g' u gone named
      case exiting => exact fun _ _ held => by cases held
      case taken => exact fun _ _ held => by cases held
      case destroyed =>
        intro u member
        rcases List.mem_append.mp member with old | new
        · exact inv.destroyed u old
        · rw [Option.toList_some, List.mem_singleton] at new
          subst new
          exact (List.getElem?_eq_some_iff.mp known).1
      case once =>
        refine List.nodup_append.mpr ⟨inv.once, List.nodup_singleton user, ?_⟩
        intro u member v last same
        rw [Option.toList_some, List.mem_singleton] at last
        exact living (last ▸ same ▸ member)
      case sampling => exact inv.sampling

end UsersInv

/-- **Each user is destroyed at most once**, and only when no group names it any more. In every state of
every run: the users destroyed are different ones and were created; a group that names a user names one
that was created for it and is not destroyed; and the one that `xstat_ipmi_exit` is about to destroy is
not destroyed yet and named by no group. -/
theorem users_destroyed_once {n : Nat} {groups : Fin n → IpmiGroup}
    {trace : List (UsersState n × UsersAction n)} {s : UsersState n}
    (run : Run (UsersState.step groups) (.start n) trace s) :
    s.destroyed.Nodup ∧ (∀ u ∈ s.destroyed, u < s.created.length) ∧
    (∀ g u, s.user g = some u → s.created[u]? = some g ∧ u ∉ s.destroyed) ∧
    ∀ g u, s.exit = .unlocked g (some u) → u ∉ s.destroyed ∧ ∀ g', s.user g' ≠ some u := by
  have inv := run.invariant (fun _ _ => True) (UsersInv.start n)
    (fun _ _ _ before _ taken => before.step taken) fun _ _ => trivial
  refine ⟨inv.once, inv.destroyed, inv.named, fun g u here => ?_⟩
  have gone : s.exit.taken = some (g, u) := by rw [here]; rfl
  obtain ⟨known, living⟩ := inv.exiting g u (inHand_of_taken gone)
  refine ⟨living, fun g' named => ?_⟩
  obtain rfl : g' = g := Option.some.inj ((inv.named g' u named).1.symm.trans known)
  exact inv.taken g' u gone named

/-- An interface is announced, and the module is removed. -/
def announcedThenRemoved : List (UsersAction 1) :=
  .newSmi :: List.replicate 3 (.registerBmc 0 true) ++ List.replicate 7 .exit

theorem users_destroyed_once_removed :
    ∃ trace s, Run (UsersState.step IpmiState.miscGroup) (.start 1) trace s ∧
      trace.map Prod.snd = announcedThenRemoved ∧ s.destroyed = [0] ∧ s.user 0 ≠ some 0 := by
  have done : (exec (UsersState.step IpmiState.miscGroup) (.start 1) announcedThenRemoved).any fun s =>
      s.destroyed == [0] := by decide
  obtain ⟨trace, s, run, same, passed⟩ := run_of_exec_any done
  have destroyed := eq_of_beq passed
  refine ⟨trace, s, run, same, destroyed, fun named => ?_⟩
  exact ((users_destroyed_once run).2.2.1 0 0 named).2 (destroyed ▸ List.mem_singleton_self 0)

/-! ### Users that are left -/

/-- `xstat_ipmi_exit` has read the group's pointer. -/
def IpmiExitPc.HasRead {n : Nat} (g : Fin n) : IpmiExitPc n → Prop
  | .notCalled => False
  | .loop i => g.val < i
  | .locked i => g < i
  | .loaded i _ | .cleared i _ | .unlocked i _ => g ≤ i
  | .returned => True

/-- The step stores a user over another one, or where `xstat_ipmi_exit` does not look any more. -/
def LosesUser {n : Nat} (s : UsersState n) (a : UsersAction n) : Prop :=
  ∃ call g, a = .registerBmc call true ∧ s.calls[call]? = some (.create g) ∧
    (s.user g ≠ none ∨ s.exit.HasRead g)

/-- The user is destroyed, or `xstat_ipmi_exit` has it in hand or is going to. -/
def Accounted {n : Nat} (s : UsersState n) (u : Nat) : Prop :=
  u ∈ s.destroyed ∨ (∃ g, s.exit.inHand = some (g, u)) ∨
    ∃ g, s.user g = some u ∧ ¬ s.exit.HasRead g

section Left

variable {n : Nat} {groups : Fin n → IpmiGroup} {s s' : UsersState n}

/-- What `Accounted` depends on. -/
theorem accounted_congr {u : Nat} (user : s'.user = s.user) (exit : s'.exit = s.exit)
    (destroyed : s'.destroyed = s.destroyed) : Accounted s' u ↔ Accounted s u := by
  unfold Accounted
  rw [user, exit, destroyed]

/-- Only a creation changes which users are accounted for. -/
theorem accounted_step {a : UsersAction n} (taken : s.step groups a = some s')
    (other : ∀ call g, a = .registerBmc call true → s.calls[call]? ≠ some (.create g)) (u : Nat) :
    Accounted s' u ↔ Accounted s u := by
  cases UsersState.move_of_step taken with
  | announces | finds | lacks | callReturns | createFails => exact accounted_congr rfl rfl rfl
  | creates here => exact absurd here (other _ _ rfl)
  | enters | leaves | passes | locks | loads | stores | unlocks | requests =>
    exact accounted_congr rfl rfl rfl
  | exitBegins here => simp [Accounted, here, IpmiExitPc.inHand, IpmiExitPc.HasRead]
  | exitLocks here =>
    simp [Accounted, here, IpmiExitPc.inHand, IpmiExitPc.HasRead, UsersState.setLock, Fin.lt_def]
  | @exitLoads g here =>
    -- The user that the group names goes over into the hand.
    simp only [Accounted, here, IpmiExitPc.inHand, IpmiExitPc.HasRead, reduceCtorEq, exists_false,
      false_or, not_le, not_lt]
    refine or_congr_right ⟨?_, ?_⟩
    · rintro (⟨g', pair⟩ | ⟨g', named, unread⟩)
      · obtain ⟨_, named, same⟩ := Option.map_eq_some_iff.mp pair
        cases same
        exact ⟨g, named, Nat.le_refl _⟩
      · exact ⟨g', named, unread.le⟩
    · rintro ⟨g', named, unread⟩
      rcases unread.eq_or_lt with rfl | above
      · exact .inl ⟨g, by rw [named]; rfl⟩
      · exact .inr ⟨g', named, above⟩
  | @exitClears g user here =>
    simp only [Accounted, here, IpmiExitPc.inHand, IpmiExitPc.HasRead, not_le]
    refine or_congr_right (or_congr_right (exists_congr fun g' => and_congr_left fun unread => ?_))
    rw [Function.update_of_ne unread.ne']
  | exitUnlocks here => simp [Accounted, here, IpmiExitPc.inHand, IpmiExitPc.HasRead, UsersState.setLock]
  | @exitDestroys g user here =>
    have more : ∀ g' : Fin n, ¬ g'.val < g.val + 1 ↔ ¬ g' ≤ g := fun g' =>
      not_congr Nat.lt_succ_iff
    simp only [Accounted, here, IpmiExitPc.inHand, IpmiExitPc.HasRead, more, List.mem_append,
      Option.mem_toList, or_assoc, reduceCtorEq, exists_false, false_or]
    refine or_congr_right (or_congr_left ⟨?_, ?_⟩)
    · rintro rfl
      exact ⟨g, rfl⟩
    · rintro ⟨g', pair⟩
      obtain ⟨_, held, same⟩ := Option.map_eq_some_iff.mp pair
      cases same
      exact held
  | @exitReturns i here beyond =>
    have all : ∀ g : Fin n, g.val < i := fun g => g.isLt.trans_le beyond
    simp [Accounted, here, IpmiExitPc.inHand, IpmiExitPc.HasRead, all]

/-- A step creates a user, or creates none and accounts for the same ones. -/
theorem createUser_or_accounted {a : UsersAction n} (taken : s.step groups a = some s') :
    (∃ call g, a = .registerBmc call true ∧ s.calls[call]? = some (.create g) ∧
      s' = (s.createUser g).setCall call (.test (g + 1))) ∨
    s'.created = s.created ∧ ∀ u, Accounted s' u ↔ Accounted s u := by
  by_cases creates : ∃ call g, a = .registerBmc call true ∧ s.calls[call]? = some (.create g)
  · obtain ⟨call, g, rfl, here⟩ := creates
    simp only [UsersState.step, UsersState.stepCall, here, if_true, Option.some.injEq] at taken
    exact .inl ⟨call, g, rfl, here, taken.symm⟩
  · have other : ∀ call g, a = .registerBmc call true → s.calls[call]? ≠ some (.create g) :=
      fun call g is here => creates ⟨call, g, is, here⟩
    refine .inr ⟨?_, accounted_step taken other⟩
    cases UsersState.move_of_step taken with
    | creates here => exact absurd here (other _ _ rfl)
    | _ => rfl

/-- A user that is not accounted for stays so. -/
theorem not_accounted_step {a : UsersAction n} (taken : s.step groups a = some s') {u : Nat}
    (created : u < s.created.length) (lost : ¬ Accounted s u) :
    u < s'.created.length ∧ ¬ Accounted s' u := by
  rcases createUser_or_accounted taken with ⟨call, g, _, _, rfl⟩ | ⟨same, accounted⟩
  · refine ⟨created.trans_le (List.length_append ▸ Nat.le_add_right ..), fun again => lost ?_⟩
    refine Or.imp_right (Or.imp_right ?_) again
    rintro ⟨g', named, unread⟩
    rcases update_eq_iff.mp named with ⟨_, new⟩ | ⟨_, old⟩
    · cases new
      exact absurd created (Nat.lt_irrefl _)
    · exact ⟨g', old, unread⟩
  · rw [same, accounted]
    exact ⟨created, lost⟩

/-- A step that loses no user keeps all of them accounted for. -/
theorem accounted_of_not_losesUser {a : UsersAction n} (taken : s.step groups a = some s')
    (keeps : ¬ LosesUser s a) (all : ∀ u < s.created.length, Accounted s u) :
    ∀ u < s'.created.length, Accounted s' u := by
  rcases createUser_or_accounted taken with ⟨call, g, rfl, here, rfl⟩ | ⟨same, accounted⟩
  · have room : s.user g = none := by
      by_contra other
      exact keeps ⟨call, g, rfl, here, .inl other⟩
    have unread : ¬ s.exit.HasRead g := fun read => keeps ⟨call, g, rfl, here, .inr read⟩
    intro u created
    have split : u < s.created.length ∨ u = s.created.length := by
      have length : (s.created ++ [g]).length = s.created.length + 1 := List.length_append
      change u < (s.created ++ [g]).length at created
      omega
    rcases split with old | rfl
    · refine Or.imp_right (Or.imp_right ?_) (all u old)
      rintro ⟨g', named, notYet⟩
      refine ⟨g', update_eq_iff.mpr (.inr ⟨?_, named⟩), notYet⟩
      rintro rfl
      rw [room] at named
      cases named
    · exact .inr (.inr ⟨g, Function.update_self .., unread⟩)
  · intro u created
    rw [same] at created
    exact (accounted u).mpr (all u created)

theorem hasRead_of_inHand {pc : IpmiExitPc n} {g : Fin n} {u : Nat}
    (held : pc.inHand = some (g, u)) : pc.HasRead g := by
  cases pc with
  | notCalled | loop | locked | returned => cases held
  | loaded | cleared | unlocked =>
    obtain ⟨_, _, pair⟩ := Option.map_eq_some_iff.mp held
    cases pair
    exact Nat.le_refl _

/-- A step that loses a user leaves one that is not accounted for. -/
theorem LosesUser.step (inv : UsersInv s) {a : UsersAction n} (loses : LosesUser s a)
    (taken : s.step groups a = some s') : ∃ u < s'.created.length, ¬ Accounted s' u := by
  obtain ⟨call, g, rfl, here, lost⟩ := loses
  simp only [UsersState.step, UsersState.stepCall, here, if_true, Option.some.injEq] at taken
  subst taken
  have length : (s.created ++ [g]).length = s.created.length + 1 := List.length_append
  have inside : ∀ {u : Nat} {g' : Fin n}, s.created[u]? = some g' → u < s.created.length :=
    fun known => (List.getElem?_eq_some_iff.mp known).1
  by_cases read : s.exit.HasRead g
  · -- The new user is the one.
    refine ⟨s.created.length, length ▸ Nat.lt_succ_self _, ?_⟩
    rintro (destroyed | ⟨g', held⟩ | ⟨g', named, unread⟩)
    · exact absurd (inv.destroyed _ destroyed) (Nat.lt_irrefl _)
    · exact absurd (inside (inv.exiting g' _ held).1) (Nat.lt_irrefl _)
    · rcases update_eq_iff.mp named with ⟨rfl, _⟩ | ⟨_, old⟩
      · exact unread read
      · exact absurd (inside (inv.named g' _ old).1) (Nat.lt_irrefl _)
  · obtain ⟨u, older⟩ := Option.ne_none_iff_exists'.mp (lost.resolve_right read)
    obtain ⟨known, living⟩ := inv.named g u older
    refine ⟨u, length ▸ Nat.lt_succ_of_lt (inside known), ?_⟩
    rintro (destroyed | ⟨g', held⟩ | ⟨g', named, unread⟩)
    · exact living destroyed
    · obtain rfl : g' = g := Option.some.inj ((inv.exiting g' u held).1.symm.trans known)
      exact read (hasRead_of_inHand held)
    · rcases update_eq_iff.mp named with ⟨_, new⟩ | ⟨other, old⟩
      · cases new
        exact absurd (inside known) (Nat.lt_irrefl _)
      · exact other (Option.some.inj ((inv.named g' u old).1.symm.trans known))

end Left

/-- **When a user is left.** In every run in which `xstat_ipmi_exit` has returned, every user that was
created is destroyed if and only if no step of the run stored a user over another one or into a group
whose pointer `xstat_ipmi_exit` had read. -/
theorem no_user_left_iff {n : Nat} {groups : Fin n → IpmiGroup}
    {trace : List (UsersState n × UsersAction n)} {s : UsersState n}
    (run : Run (UsersState.step groups) (.start n) trace s) (returned : s.exit = .returned) :
    (∀ u < s.created.length, u ∈ s.destroyed) ↔ ∀ x ∈ trace, ¬ LosesUser x.1 x.2 := by
  have destroyed : ∀ u, Accounted s u ↔ u ∈ s.destroyed := fun u => by
    simp [Accounted, returned, IpmiExitPc.inHand, IpmiExitPc.HasRead]
  constructor
  · intro all x member loses
    obtain ⟨earlier, later, rfl⟩ := List.append_of_mem member
    have inv := run.before.invariant (fun _ _ => True) (UsersInv.start n)
      (fun _ _ _ before _ taken => before.step taken) fun _ _ => trivial
    obtain ⟨next, taken, rest⟩ := run.after
    obtain ⟨u, created, lost⟩ := loses.step inv taken
    have still : u < s.created.length ∧ ¬ Accounted s u :=
      rest.invariant (P := fun s => u < s.created.length ∧ ¬ Accounted s u) (fun _ _ => True)
        ⟨created, lost⟩ (fun _ _ _ before _ taken => not_accounted_step taken before.1 before.2)
        fun _ _ => trivial
    exact still.2 ((destroyed u).mpr (all u still.1))
  · intro keeps u created
    have all := run.invariant (P := fun s => ∀ u < s.created.length, Accounted s u)
      (fun s a => ¬ LosesUser s a) (fun _ none => absurd none (Nat.not_lt_zero _))
      (fun _ _ _ before keeps taken => accounted_of_not_losesUser taken keeps before) keeps
    exact (destroyed u).mp (all u created)

/-- `xstat_register_bmc` finds no user, and creates one after `xstat_ipmi_exit` has cleared the group. -/
def createdTooLate : List (UsersAction 1) :=
  .newSmi :: .registerBmc 0 true :: (List.replicate 4 .exit ++
    (List.replicate 2 (.registerBmc 0 true) ++ List.replicate 3 .exit))

theorem no_user_left_iff_created_too_late :
    ∃ trace s, Run (UsersState.step IpmiState.miscGroup) (.start 1) trace s ∧
      trace.map Prod.snd = createdTooLate ∧ s.exit = .returned ∧ s.created = [0] ∧
      s.destroyed = [] ∧ ¬ ∀ x ∈ trace, ¬ LosesUser x.1 x.2 := by
  have done : (exec (UsersState.step IpmiState.miscGroup) (.start 1) createdTooLate).any fun s =>
      s.exit == .returned && s.created == [0] && s.destroyed == [] := by decide
  obtain ⟨trace, s, run, same, passed⟩ := run_of_exec_any done
  simp only [Bool.and_eq_true, beq_iff_eq] at passed
  obtain ⟨⟨returned, created⟩, destroyed⟩ := passed
  refine ⟨trace, s, run, same, returned, created, destroyed, fun keeps => ?_⟩
  have gone := (no_user_left_iff run returned).mpr keeps 0 (by rw [created]; decide)
  rw [destroyed] at gone
  cases gone

end Xstats.Xstat
