/-
**Removing the module while requests are made** (`xstat_exit`, `xstat_ipmi_exit`,
`xstat_ipmi_restart`).

A sampler keeps the user that it found when it entered `xstat_ipmi_restart` in a local variable, and
`ipmi_destroy_user` does not ask who else has it. What protects the samplers is the order in
`xstat_exit`, which stops them before it comes to `xstat_ipmi_exit`.

* `destroyed_user_unused_iff`: from the moment on when a user is about to be destroyed, no request is ever
  made with it once it is, if and only if no sampler has it in hand with a request to make.
* `removal_requests_living`: the module, its removal and the driver run together. Where `xstat_exit`
  frees only nodes without a sampler, every request is made with a user that is not destroyed, and none
  is made once `xstat_ipmi_exit` has begun.
-/

import Xstats.Xstat.Exit
import Xstats.Xstat.IpmiLabels
import Xstats.Xstat.IpmiMsgids

namespace Xstats.Xstat

open Transition

/-! ### Requests to come -/

/-- The user that a sampler makes its next request with. -/
def RestartPc.nextUser {n : Nat} : RestartPc n → Option Nat
  | .idle | .loop _ _ 0 => none
  | .loop _ user (_ + 1) => user
  | .locked _ user _ | .loaded _ user _ _ | .stored _ user _ _ _ | .unlocked _ user _ _ _ => some user

/-- The iteration is one of the group's. -/
def RestartPc.Within {n : Nat} (groups : Fin n → IpmiGroup) : RestartPc n → Prop
  | .idle => True
  | .loop g _ k => k ≤ (groups g).ctx.nctxs
  | .locked g _ i | .loaded g _ i _ | .stored g _ i _ _ | .unlocked g _ i _ _ =>
    i < (groups g).ctx.nctxs

/-- The samplers are within their groups, and a request that was made with a destroyed user names one. -/
structure RequestInv {n : Nat} (groups : Fin n → IpmiGroup) (s : UsersState n) : Prop where
  within : ∀ tid, (s.samplers tid).Within groups
  dead : ∀ r ∈ s.requests, r.living = false → r.user ∈ s.destroyed

section Requests

variable {n : Nat} {groups : Fin n → IpmiGroup} {s s' : UsersState n}

theorem requestInv_start (groups : Fin n → IpmiGroup) : RequestInv groups (UsersState.start n) where
  within := fun _ => trivial
  dead := fun _ member => by cases member

theorem RequestInv.setSampler (inv : RequestInv groups s) {tid : Nat} {pc : RestartPc n}
    (within : (s.samplers tid).Within groups → pc.Within groups) :
    RequestInv groups (s.setSampler tid pc) := by
  refine { inv with within := fun t => ?_ }
  rw [LockInv.samplers_setSampler]
  split
  · exact within (inv.within tid)
  · exact inv.within t

theorem RequestInv.step (inv : RequestInv groups s) {a : UsersAction n}
    (taken : s.step groups a = some s') : RequestInv groups s' := by
  cases UsersState.move_of_step taken with
  | announces | finds | lacks | callReturns | creates | createFails => exact { inv with }
  | exitBegins | exitLocks | exitLoads | exitClears | exitUnlocks | exitReturns => exact { inv with }
  | exitDestroys =>
    exact { inv with dead := fun r member gone => List.mem_append_left _ (inv.dead r member gone) }
  | enters => exact inv.setSampler fun _ => Nat.le_refl _
  | leaves => exact inv.setSampler fun _ => trivial
  | passes here =>
    refine inv.setSampler fun within => ?_
    rw [here] at within
    exact Nat.le_of_succ_le within
  | @locks tid g user i here =>
    have kept : RequestInv groups (s.setLock g (some (.sampler tid))) := { inv with }
    exact kept.setSampler fun within => by
      change (s.samplers tid).Within groups at within
      rw [here] at within
      exact within
  | loads here => exact inv.setSampler fun within => by rw [here] at within; exact within
  | @stores tid g user i msgid here =>
    have kept : RequestInv groups (s.storeMsgid g (msgid + 1)) := { inv with }
    exact kept.setSampler fun within => by
      change (s.samplers tid).Within groups at within
      rw [here] at within
      exact within
  | @unlocks tid g user i msgid serial here =>
    have kept : RequestInv groups (s.setLock g none) := { inv with }
    exact kept.setSampler fun within => by
      change (s.samplers tid).Within groups at within
      rw [here] at within
      exact within
  | @requests tid g user i msgid serial config here =>
    have kept : RequestInv groups (s.request groups g user i config msgid serial) := by
      refine { inv with dead := fun r member gone => ?_ }
      rcases List.mem_append.mp member with old | new
      · exact inv.dead r old gone
      · rw [List.mem_singleton] at new
        subst new
        exact not_not.mp (of_decide_eq_false gone)
    exact kept.setSampler fun within => by
      change (s.samplers tid).Within groups at within
      rw [here] at within
      exact Nat.le_of_lt within

/-! ### A user that is still in hand -/

/-- A request with a destroyed user `u` can follow. -/
def DeadRequest (groups : Fin n → IpmiGroup) (s : UsersState n) (u : Nat) : Prop :=
  ∃ t, Reachable (UsersState.step groups) s t ∧ ∃ r ∈ t.requests, r.user = u ∧ r.living = false

theorem DeadRequest.head {u : Nat} {a : UsersAction n} (taken : s.step groups a = some s')
    (later : DeadRequest groups s' u) : DeadRequest groups s u := by
  obtain ⟨t, reached, request⟩ := later
  exact ⟨t, reached.head taken, request⟩

/-- A sampler that has let go of the lock makes its request. -/
theorem deadRequest_unlocked {tid : Nat} {g : Fin n} {u i serial : Nat} {msgid : BitVec 32}
    (here : s.samplers tid = .unlocked g u i msgid serial) (inside : i < (groups g).ctx.nctxs)
    (destroyed : u ∈ s.destroyed) : DeadRequest groups s u := by
  have entry : (groups g).ctx.ctxs[i]? = some (groups g).ctx.ctxs[i] := List.getElem?_eq_getElem inside
  have taken : s.step groups (.sampler tid) = some ((s.request groups g u i
      (groups g).ctx.ctxs[i] msgid serial).setSampler tid (.loop g (some u) i)) := by
    simp only [UsersState.step, UsersState.stepSampler, here, entry, Option.map_some]
  refine ⟨_, ⟨_, Run.nil.snoc taken⟩, _, List.mem_append_right _ (List.mem_singleton_self _), rfl, ?_⟩
  exact decide_eq_false (not_not.mpr destroyed)

theorem deadRequest_stored {tid : Nat} {g : Fin n} {u i serial : Nat} {msgid : BitVec 32}
    (here : s.samplers tid = .stored g u i msgid serial) (inside : i < (groups g).ctx.nctxs)
    (destroyed : u ∈ s.destroyed) : DeadRequest groups s u := by
  have taken : s.step groups (.sampler tid) = some ((s.setLock g none).setSampler tid
      (.unlocked g u i msgid serial)) := by
    simp only [UsersState.step, UsersState.stepSampler, here]
  exact .head taken (deadRequest_unlocked (Function.update_self ..) inside destroyed)

theorem deadRequest_loaded {tid : Nat} {g : Fin n} {u i : Nat} {msgid : BitVec 32}
    (here : s.samplers tid = .loaded g u i msgid) (inside : i < (groups g).ctx.nctxs)
    (destroyed : u ∈ s.destroyed) : DeadRequest groups s u := by
  have taken : s.step groups (.sampler tid) = some ((s.storeMsgid g (msgid + 1)).setSampler tid
      (.stored g u i msgid (s.handed g))) := by
    simp only [UsersState.step, UsersState.stepSampler, here]
  exact .head taken (deadRequest_stored (Function.update_self ..) inside destroyed)

theorem deadRequest_locked {tid : Nat} {g : Fin n} {u i : Nat}
    (here : s.samplers tid = .locked g u i) (inside : i < (groups g).ctx.nctxs)
    (destroyed : u ∈ s.destroyed) : DeadRequest groups s u := by
  have taken : s.step groups (.sampler tid) = some (s.setSampler tid
      (.loaded g u i (s.msgid g))) := by
    simp only [UsersState.step, UsersState.stepSampler, here]
  exact .head taken (deadRequest_loaded (Function.update_self ..) inside destroyed)

theorem deadRequest_free {tid : Nat} {g : Fin n} {u i : Nat}
    (here : s.samplers tid = .loop g (some u) (i + 1)) (free : s.lock g = none)
    (inside : i < (groups g).ctx.nctxs) (destroyed : u ∈ s.destroyed) : DeadRequest groups s u := by
  have taken : s.step groups (.sampler tid) = some ((s.setLock g (some (.sampler tid))).setSampler tid
      (.locked g u i)) := by
    simp only [UsersState.step, UsersState.stepSampler, here, free, if_true]
  exact .head taken (deadRequest_locked (Function.update_self ..) inside destroyed)

/-- A sampler that holds the lock for which another one waits goes on until it lets go of it. -/
theorem deadRequest_waiting {tid t : Nat} {g : Fin n} {u i : Nat}
    (here : s.samplers tid = .loop g (some u) (i + 1)) (held : (s.samplers t).holds = some g)
    (inside : i < (groups g).ctx.nctxs) (destroyed : u ∈ s.destroyed) : DeadRequest groups s u := by
  have other : tid ≠ t := by
    rintro rfl
    rw [here] at held
    cases held
  have waits : ∀ (s : UsersState n) pc, s.samplers tid = .loop g (some u) (i + 1) →
      (s.setSampler t pc).samplers tid = .loop g (some u) (i + 1) :=
    fun s pc here => (Function.update_of_ne other _ _).trans here
  have stored : ∀ (s : UsersState n) {v k m c}, s.samplers tid = .loop g (some u) (i + 1) →
      s.samplers t = .stored g v k m c → u ∈ s.destroyed → DeadRequest groups s u := by
    intro s v k m c here place destroyed
    have taken : s.step groups (.sampler t) = some ((s.setLock g none).setSampler t
        (.unlocked g v k m c)) := by
      simp only [UsersState.step, UsersState.stepSampler, place]
    exact .head taken (deadRequest_free (waits _ _ here) (Function.update_self ..) inside destroyed)
  have loaded : ∀ (s : UsersState n) {v k m}, s.samplers tid = .loop g (some u) (i + 1) →
      s.samplers t = .loaded g v k m → u ∈ s.destroyed → DeadRequest groups s u := by
    intro s v k m here place destroyed
    have taken : s.step groups (.sampler t) = some ((s.storeMsgid g (m + 1)).setSampler t
        (.stored g v k m (s.handed g))) := by
      simp only [UsersState.step, UsersState.stepSampler, place]
    exact .head taken (stored _ (waits _ _ here) (Function.update_self ..) destroyed)
  cases place : s.samplers t with
  | idle | loop | unlocked =>
    rw [place] at held
    cases held
  | locked g' v k =>
    rw [place] at held
    cases held
    have taken : s.step groups (.sampler t) = some (s.setSampler t (.loaded g v k (s.msgid g))) := by
      simp only [UsersState.step, UsersState.stepSampler, place]
    exact .head taken (loaded _ (waits _ _ here) (Function.update_self ..) destroyed)
  | loaded g' v k m =>
    rw [place] at held
    cases held
    exact loaded s here place destroyed
  | stored g' v k m c =>
    rw [place] at held
    cases held
    exact stored s here place destroyed

/-- A sampler whose user is destroyed makes its next request with it, if the other samplers let it. -/
theorem deadRequest_of_nextUser (inv : RequestInv groups s) (locks : LockInv s)
    (outside : s.exit.holds = none) (tid : Nat) {u : Nat} (next : (s.samplers tid).nextUser = some u)
    (destroyed : u ∈ s.destroyed) : DeadRequest groups s u := by
  have within := inv.within tid
  cases here : s.samplers tid with
  | idle =>
    rw [here] at next
    cases next
  | loop g user k =>
    rw [here] at next within
    cases k with
    | zero => cases next
    | succ i =>
      cases next
      cases lock : s.lock g with
      | none => exact deadRequest_free here lock within destroyed
      | some holder =>
        have held := (locks holder g).mpr lock
        cases holder with
        | sampler t => exact deadRequest_waiting here held within destroyed
        | exit =>
          change s.exit.holds = _ at held
          rw [outside] at held
          cases held
  | locked g user i =>
    rw [here] at next within
    cases next
    exact deadRequest_locked here within destroyed
  | loaded g user i msgid =>
    rw [here] at next within
    cases next
    exact deadRequest_loaded here within destroyed
  | stored g user i msgid serial =>
    rw [here] at next within
    cases next
    exact deadRequest_stored here within destroyed
  | unlocked g user i msgid serial =>
    rw [here] at next within
    cases next
    exact deadRequest_unlocked here within destroyed

/-! ### A user that nobody has in hand -/

/-- No sampler makes a request with user `u` any more. -/
structure Unused (s : UsersState n) (u : Nat) : Prop where
  next : ∀ tid, (s.samplers tid).nextUser ≠ some u
  named : ∀ g, s.user g ≠ some u
  created : u < s.created.length
  living : ∀ r ∈ s.requests, r.user = u → r.living = true

theorem nextUser_loop {g : Fin n} {user : Option Nat} {u : Nat} (other : user ≠ some u) (k : Nat) :
    (RestartPc.loop g user k).nextUser ≠ some u := by
  cases k with
  | zero => exact fun none => by cases none
  | succ i => exact other

theorem Unused.setSampler {u : Nat} (unused : Unused s u) {tid : Nat} {pc : RestartPc n}
    (next : (s.samplers tid).nextUser ≠ some u → pc.nextUser ≠ some u) :
    Unused (s.setSampler tid pc) u := by
  refine { unused with next := fun t => ?_ }
  rw [LockInv.samplers_setSampler]
  split
  · exact next (unused.next tid)
  · exact unused.next t

theorem Unused.step {u : Nat} (unused : Unused s u) {a : UsersAction n}
    (taken : s.step groups a = some s') : Unused s' u := by
  cases UsersState.move_of_step taken with
  | announces | finds | lacks | callReturns | createFails => exact { unused with }
  | @creates call g =>
    have known := unused.created
    refine { unused with
      named := fun g' named => ?_
      created := ?_ }
    · rcases update_eq_iff.mp named with ⟨_, new⟩ | ⟨_, old⟩
      · cases new
        exact Nat.lt_irrefl _ known
      · exact unused.named g' old
    · show u < (s.created ++ [g]).length
      rw [List.length_append]
      exact Nat.lt_add_right _ known
  | exitBegins | exitLocks | exitLoads | exitUnlocks | exitDestroys | exitReturns =>
    exact { unused with }
  | exitClears =>
    refine { unused with named := fun g' named => ?_ }
    rcases update_eq_iff.mp named with ⟨_, new⟩ | ⟨_, old⟩
    · cases new
    · exact unused.named g' old
  | @enters tid g => exact unused.setSampler fun _ => nextUser_loop (unused.named g) _
  | leaves => exact unused.setSampler fun _ none => by cases none
  | passes => exact unused.setSampler fun _ => nextUser_loop (fun none => by cases none) _
  | @locks tid g user i here =>
    have kept : Unused (s.setLock g (some (.sampler tid))) u := { unused with }
    exact kept.setSampler fun other => by
      change (s.samplers tid).nextUser ≠ _ at other
      rw [here] at other
      exact other
  | loads here => exact unused.setSampler fun other => by rw [here] at other; exact other
  | @stores tid g user i msgid here =>
    have kept : Unused (s.storeMsgid g (msgid + 1)) u := { unused with }
    exact kept.setSampler fun other => by
      change (s.samplers tid).nextUser ≠ _ at other
      rw [here] at other
      exact other
  | @unlocks tid g user i msgid serial here =>
    have kept : Unused (s.setLock g none) u := { unused with }
    exact kept.setSampler fun other => by
      change (s.samplers tid).nextUser ≠ _ at other
      rw [here] at other
      exact other
  | @requests tid g user i msgid serial config here =>
    have other := unused.next tid
    rw [here] at other
    have kept : Unused (s.request groups g user i config msgid serial) u := by
      refine { unused with living := fun r member mine => ?_ }
      rcases List.mem_append.mp member with old | new
      · exact unused.living r old mine
      · rw [List.mem_singleton] at new
        subst new
        exact absurd (congrArg some mine) other
    exact kept.setSampler fun _ => nextUser_loop other _

end Requests

/-- **When a destroyed user is used.** Take any state of any run in which `xstat_ipmi_exit` is about to
destroy a user. In whatever follows, every request with that user is made while it is not destroyed, if
and only if no sampler has it in hand with a request to make. -/
theorem destroyed_user_unused_iff {n : Nat} {groups : Fin n → IpmiGroup}
    {trace : List (UsersState n × UsersAction n)} {s : UsersState n}
    (run : Run (UsersState.step groups) (.start n) trace s) {g : Fin n} {u : Nat}
    (here : s.exit = .unlocked g (some u)) :
    (∀ t, Reachable (UsersState.step groups) s t → ∀ r ∈ t.requests, r.user = u → r.living = true) ↔
      ∀ tid, (s.samplers tid).nextUser ≠ some u := by
  obtain ⟨users, locks, requests⟩ := run.invariant
    (P := fun s => UsersInv s ∧ LockInv s ∧ RequestInv groups s) (fun _ _ => True)
    ⟨UsersInv.start n, LockInv.start n, requestInv_start groups⟩
    (fun _ _ _ before _ taken =>
      ⟨before.1.step taken, before.2.1.step taken, before.2.2.step taken⟩) fun _ _ => trivial
  have gone : s.exit.taken = some (g, u) := by rw [here]; rfl
  obtain ⟨known, living⟩ := users.exiting g u (inHand_of_taken gone)
  constructor
  · intro always tid next
    have taken : s.step groups .exit = some
        { s with destroyed := s.destroyed ++ [u], exit := .loop (g + 1) } := by
      simp only [UsersState.step, UsersState.stepExit, here, Option.toList_some]
    obtain ⟨t, reached, r, member, mine, dead⟩ := deadRequest_of_nextUser (requests.step taken)
      (locks.step taken) rfl tid next (List.mem_append_right _ (List.mem_singleton_self u))
    rw [always t (reached.head taken) r member mine] at dead
    cases dead
  · intro idle t reached
    have unused : Unused s u := by
      refine ⟨idle, fun g' named => ?_, (List.getElem?_eq_some_iff.mp known).1, fun r member mine => ?_⟩
      · obtain rfl : g' = g := Option.some.inj ((users.named g' u named).1.symm.trans known)
        exact users.taken g' u gone named
      · by_contra dead
        exact living (mine ▸ requests.dead r member (Bool.eq_false_iff.mpr dead))
    exact (reached.invariant (P := fun s => Unused s u) unused
      fun _ _ _ before taken => before.step taken).living

/-- A node's thread has taken the lock for a request, and `xstat_ipmi_exit` waits for it. -/
def removedMeanwhile (g : Fin 1) : List (UsersAction 1) :=
  .newSmi :: .registerBmc 0 true :: .registerBmc 0 true :: .restart 0 g ::
    (List.replicate 4 (.sampler 0) ++ List.replicate 5 .exit)

theorem destroyed_user_unused_iff_meanwhile :
    ∃ trace s, Run (UsersState.step IpmiState.miscGroup) (.start 1) trace s ∧
      trace.map Prod.snd = removedMeanwhile 0 ∧
      ¬ ∀ t, Reachable (UsersState.step IpmiState.miscGroup) s t →
        ∀ r ∈ t.requests, r.user = 0 → r.living = true := by
  have done : (exec (UsersState.step IpmiState.miscGroup) (.start 1) (removedMeanwhile 0)).any fun s =>
      s.exit == .unlocked 0 (some 0) && (s.samplers 0).nextUser == some 0 := by decide
  obtain ⟨trace, s, run, same, passed⟩ := run_of_exec_any done
  simp only [Bool.and_eq_true, beq_iff_eq] at passed
  exact ⟨trace, s, run, same, fun always =>
    (destroyed_user_unused_iff run passed.1).mp always 0 passed.2⟩

/-! ### With the module and its removal -/

/-- The module with the thread that removes it, and the driver's part. -/
structure RemovalState where
  outer : ExitState
  users : UsersState 3

inductive RemovalAction
  | outer (a : ExitAction)
  | users (a : UsersAction 3)

namespace RemovalState

/-- The sampler is before its call of `xstat_ipmi_restart` for group `g`, or in it. -/
def atIpmiRestart (core : ModuleState) (tid : Nat) (g : Fin 3) : Bool :=
  (core.samplers tid).any fun th =>
    match th.pc with
    | .restart i => (nodeCounters i).data == .ipmi g
    | _ => false

/-- A thread goes on in `roll_buffer` when its `xstat_ipmi_restart` has returned. -/
def admitsOuter (st : RemovalState) : ExitAction → Bool
  | .module (.sampler tid _) => st.users.samplers tid == .idle
  | _ => true

/-- A thread is in `xstat_ipmi_restart` only in its iteration for that group, and `xstat_ipmi_exit`
comes after `class_unregister`. -/
def admitsUsers (st : RemovalState) : UsersAction 3 → Bool
  | .restart tid g => atIpmiRestart st.outer.core tid g
  | .exit => st.outer.exit == .returned
  | _ => true

/-- The module initialised, with the watcher registered. -/
def start (maxNumnodes : Nat) (nodeOnline : Nat → Bool) : RemovalState :=
  { outer := ExitState.start maxNumnodes nodeOnline, users := .start 3 }

def step (groups : Fin 3 → IpmiGroup) (maxNumnodes : Nat) (st : RemovalState) :
    RemovalAction → Option RemovalState
  | .outer a =>
    if st.admitsOuter a then (st.outer.step maxNumnodes a).map fun outer => { st with outer } else none
  | .users a =>
    if st.admitsUsers a then (st.users.step groups a).map fun users => { st with users } else none

end RemovalState

/-- No write of `on` is served between the end of `stop_stat` in `xstat_exit` and `class_unregister`. -/
def NoLateOn (st : RemovalState) (a : RemovalAction) : Prop :=
  ∀ i buf, st.outer.exit = .unregistering i → a = .outer (.module (.storeCtrlAttr buf)) →
    storeCtrlAttr buf ≠ some .startStat

/-- While `xstat_exit` removes the nodes, sampling is off. -/
def Quiet (st : ExitState) : Prop :=
  match st.exit with
  | .stopping => st.core.ctrlOn = false ∧ st.core.ctrl ≠ .free
  | .unregistering _ => st.core.ctrlOn = false ∧ st.core.ctrl = .free
  | _ => True

section Removal

variable {maxNumnodes : Nat} {st st' : ExitState}

/-- Where sampling is off, only a write of `on` to the free attribute switches it on. -/
theorem ctrlOn_of_step {s s' : ModuleState} {a : ModuleAction} (inv : CtrlInv maxNumnodes s)
    (taken : s.step maxNumnodes a = some s') (off : s.ctrlOn = false)
    (quiet : ∀ buf, s.ctrl = .free → a = .storeCtrlAttr buf → storeCtrlAttr buf ≠ some .startStat) :
    s'.ctrlOn = false ∧ (s.ctrl = .free → s'.ctrl = .free) := by
  have lock := inv.lock
  cases ModuleState.move_of_step taken with
  | ignored | last _ => exact ⟨off, id⟩
  | @startBegins buf free =>
    -- The write calls `start_stat`: anything else leaves sampling off.
    change s.writeCtrl buf = _ at taken
    unfold ModuleState.writeCtrl at taken
    cases call : storeCtrlAttr buf with
    | none =>
      simp only [call, Option.some.injEq] at taken
      have on := congrArg ModuleState.ctrlOn taken
      rw [off] at on
      cases on
    | some call' =>
      cases call' with
      | startStat => exact absurd call (quiet buf free rfl)
      | stopStat =>
        simp only [call, ModuleState.enterCall, free, if_true, off, Option.some.injEq] at taken
        have on := congrArg ModuleState.ctrlOn taken
        simp [off] at on
  | stopBegins _ on =>
    rw [off] at on
    cases on
  | startSkips here | starts here | startFails here | startEnds here =>
    rw [here, CtrlPc.Holds, off] at lock
    exact absurd lock.1 Bool.false_ne_true
  | stopSkips here | stopFaults here | stops here | joins here =>
    exact ⟨off, fun free => by rw [here] at free; cases free⟩
  | stopEnds => exact ⟨off, fun _ => rfl⟩
  | sampler | reset | stat => exact ⟨off, id⟩

theorem quiet_exitAfter {core : ModuleState} (off : core.ctrlOn = false) :
    Quiet { core, exit := ExitState.exitAfter .stopping core } := by
  unfold ExitState.exitAfter
  by_cases free : core.ctrl = .free
  · rw [if_pos ⟨rfl, free⟩]
    exact ⟨off, free⟩
  · rw [if_neg fun both => free both.2]
    exact ⟨off, free⟩

theorem Quiet.step (quiet : Quiet st) (inv : CtrlInv maxNumnodes st.core) {a : ExitAction}
    (noLateOn : ∀ i buf, st.exit = .unregistering i → a = .module (.storeCtrlAttr buf) →
      storeCtrlAttr buf ≠ some .startStat)
    (taken : st.step maxNumnodes a = some st') : Quiet st' := by
  cases exitMove_of_step taken with
  | @module a core stepped =>
    cases here : st.exit with
    | notCalled | returned =>
      rw [ExitState.exitAfter, if_neg fun both => by cases both.1]
      trivial
    | stopping =>
      rw [Quiet, here] at quiet
      exact quiet_exitAfter (ctrlOn_of_step inv stepped quiet.1
        fun buf free _ => absurd free quiet.2).1
    | unregistering i =>
      rw [Quiet, here] at quiet
      obtain ⟨off, free⟩ := ctrlOn_of_step inv stepped quiet.1
        fun buf _ is => noLateOn i buf here (congrArg _ is)
      rw [ExitState.exitAfter, if_neg fun both => by cases both.1]
      exact ⟨off, free quiet.2⟩
  | @xstatExit core entered =>
    obtain ⟨free, rest⟩ := Option.ite_none_right_eq_some.mp entered
    refine quiet_exitAfter ?_
    cases on : st.core.ctrlOn with
    | true =>
      simp only [on, if_true, Option.some.injEq] at rest
      exact rest ▸ rfl
    | false =>
      simp only [on, Bool.false_eq_true, if_false, Option.some.injEq] at rest
      exact rest ▸ on
  | skips here | frees here =>
    rw [Quiet, here] at quiet
    exact quiet
  | classUnregister => trivial

/-- Where sampling is off no node has a sampler. -/
theorem Quiet.freesIdle (quiet : Quiet st) (inv : CtrlInv maxNumnodes st.core) (a : ExitAction) :
    FreesIdle st a := by
  intro _ i here tid named
  rw [Quiet, here] at quiet
  have lock := inv.lock
  rw [quiet.2] at lock
  exact lock quiet.1 i tid named

theorem returned_of_step {a : ExitAction} (taken : st.step maxNumnodes a = some st')
    (returned : st.exit = .returned) : st'.exit = .returned := by
  cases a with
  | module a =>
    obtain ⟨_, rest⟩ := Option.ite_none_left_eq_some.mp taken
    obtain ⟨core, _, rfl⟩ := Option.map_eq_some_iff.mp rest
    show ExitState.exitAfter st.exit core = _
    rw [ExitState.exitAfter, if_neg fun both => by rw [returned] at both; cases both.1]
    exact returned
  | xstatExit | unregisterXstatNode | classUnregister =>
    simp [ExitState.step, returned] at taken

/-- A thread that another party's step finds alive stays so. -/
theorem alive_of_moduleStep {s s' : ModuleState} {a : ModuleAction}
    (taken : s.step maxNumnodes a = some s') {tid : Nat} (other : ∀ input, a ≠ .sampler tid input)
    (alive : ∃ th, s.samplers tid = some th ∧ th.pc.Alive) :
    ∃ th, s'.samplers tid = some th ∧ th.pc.Alive := by
  obtain ⟨th, thread, lives⟩ := alive
  cases ModuleState.move_of_step taken with
  | ignored | last _ | startBegins | stopBegins | startSkips | startEnds | stopSkips | stopFaults
  | stopEnds | startFails | joins | reset | stat => exact ⟨th, thread, lives⟩
  | starts =>
    show ∃ th, (s.setSampler s.nextTid _).samplers tid = some th ∧ _
    rw [ModuleState.samplers_setSampler]
    split
    · exact ⟨_, rfl, (by decide : SamplerPc.created.Alive)⟩
    · exact ⟨th, thread, lives⟩
  | @stops i t node th' _ _ _ found =>
    show ∃ th, (s.setSampler t _).samplers tid = some th ∧ _
    rw [ModuleState.samplers_setSampler]
    by_cases same : tid = t
    · rw [same, found] at thread
      cases thread
      exact ⟨_, if_pos same, lives⟩
    · exact ⟨th, (if_neg same).trans thread, lives⟩
  | @sampler t input =>
    have apart : tid ≠ t := by
      rintro rfl
      exact other input rfl
    exact ⟨th, (Function.update_of_ne apart _ _).trans thread, lives⟩

theorem alive_of_exitStep {a : ExitAction} (taken : st.step maxNumnodes a = some st') {tid : Nat}
    (other : ∀ input, a ≠ .module (.sampler tid input))
    (alive : ∃ th, st.core.samplers tid = some th ∧ th.pc.Alive) :
    ∃ th, st'.core.samplers tid = some th ∧ th.pc.Alive := by
  cases exitMove_of_step taken with
  | module stepped =>
    exact alive_of_moduleStep stepped (fun input is => other input (congrArg _ is)) alive
  | xstatExit entered =>
    have stepped : st.core.step maxNumnodes (.storeCtrlAttr "off".toList) = some _ := entered
    exact alive_of_moduleStep stepped (fun _ is => by cases is) alive
  | skips | frees | classUnregister => exact alive

/-! ### The invariant of the whole -/

/-- Every request was made with a user that was not destroyed, and so will the next ones be. -/
structure LiveInv {n : Nat} (s : UsersState n) : Prop where
  next : ∀ tid u, (s.samplers tid).nextUser = some u → u ∉ s.destroyed
  living : ∀ r ∈ s.requests, r.living = true

theorem LiveInv.setSampler {n : Nat} {s : UsersState n} (inv : LiveInv s) {tid : Nat}
    {pc : RestartPc n} (next : ∀ u, pc.nextUser = some u → u ∉ s.destroyed) :
    LiveInv (s.setSampler tid pc) := by
  refine { inv with next := fun t u names => ?_ }
  rw [LockInv.samplers_setSampler] at names
  split at names
  · exact next u names
  · exact inv.next t u names

/-- A step keeps it, if it destroys no user that is in hand. -/
theorem LiveInv.step {n : Nat} {groups : Fin n → IpmiGroup} {s s' : UsersState n} (inv : LiveInv s)
    (users : UsersInv s) {a : UsersAction n} (taken : s.step groups a = some s')
    (idle : a = .exit → ∀ tid, s.samplers tid = .idle) : LiveInv s' := by
  have own : ∀ {tid : Nat} {pc : RestartPc n} {u : Nat}, s.samplers tid = pc →
      pc.nextUser = some u → u ∉ s.destroyed := by
    rintro tid pc u rfl names
    exact inv.next tid u names
  have loop : ∀ {g : Fin n} {user : Option Nat} {k u : Nat},
      (∀ v, user = some v → v ∉ s.destroyed) → (RestartPc.loop g user k).nextUser = some u →
      u ∉ s.destroyed := by
    intro g user k u living names
    cases k with
    | zero => cases names
    | succ i => exact living u names
  cases UsersState.move_of_step taken with
  | announces | finds | lacks | callReturns | creates | createFails => exact { inv with }
  | exitBegins | exitLocks | exitLoads | exitClears | exitUnlocks | exitReturns => exact { inv with }
  | exitDestroys =>
    refine { inv with next := fun tid u names => ?_ }
    change (s.samplers tid).nextUser = _ at names
    rw [idle rfl tid] at names
    cases names
  | @enters tid g => exact inv.setSampler fun u => loop fun v named => (users.named g v named).2
  | leaves => exact inv.setSampler fun _ none => by cases none
  | passes => exact inv.setSampler fun u => loop fun _ none => by cases none
  | @locks tid g user i here =>
    have kept : LiveInv (s.setLock g (some (.sampler tid))) := { inv with }
    exact kept.setSampler fun _ names => own here names
  | loads here => exact inv.setSampler fun _ names => own here names
  | @stores tid g user i msgid here =>
    have kept : LiveInv (s.storeMsgid g (msgid + 1)) := { inv with }
    exact kept.setSampler fun _ names => own here names
  | @unlocks tid g user i msgid serial here =>
    have kept : LiveInv (s.setLock g none) := { inv with }
    exact kept.setSampler fun _ names => own here names
  | @requests tid g user i msgid serial config here =>
    have living : user ∉ s.destroyed := own here rfl
    have kept : LiveInv (s.request groups g user i config msgid serial) := by
      refine { inv with living := fun r member => ?_ }
      rcases List.mem_append.mp member with old | new
      · exact inv.living r old
      · rw [List.mem_singleton] at new
        subst new
        exact decide_eq_true living
    exact kept.setSampler fun u => loop fun v same => by cases same; exact living

/-- Only its own call takes a sampler into `xstat_ipmi_restart`. -/
theorem idle_of_step {n : Nat} {groups : Fin n → IpmiGroup} {s s' : UsersState n}
    {a : UsersAction n} (taken : s.step groups a = some s') {tid : Nat}
    (other : ∀ g, a ≠ .restart tid g) (idle : s.samplers tid = .idle) : s'.samplers tid = .idle := by
  have apart : ∀ {t : Nat} {pc : RestartPc n}, s.samplers t = pc → pc ≠ .idle → tid ≠ t := by
    rintro t pc rfl busy rfl
    exact busy idle
  have kept : ∀ {t : Nat} {pc : RestartPc n}, tid ≠ t →
      Function.update s.samplers t pc tid = .idle :=
    fun away => (Function.update_of_ne away _ _).trans idle
  cases UsersState.move_of_step taken with
  | announces | finds | lacks | callReturns | creates | createFails => exact idle
  | exitBegins | exitLocks | exitLoads | exitClears | exitUnlocks | exitDestroys | exitReturns =>
    exact idle
  | @enters t g =>
    refine kept ?_
    rintro rfl
    exact other g rfl
  | leaves here | passes here | locks here | loads here | stores here | unlocks here | requests here =>
    exact kept (apart here (fun none => by cases none))

theorem exit_of_step {n : Nat} {groups : Fin n → IpmiGroup} {s s' : UsersState n}
    {a : UsersAction n} (taken : s.step groups a = some s') (other : a ≠ .exit) :
    s'.exit = s.exit := by
  cases UsersState.move_of_step taken with
  | exitBegins | exitLocks | exitLoads | exitClears | exitUnlocks | exitDestroys | exitReturns =>
    exact absurd rfl other
  | _ => rfl

/-- The module, its removal and the driver's part. -/
structure RemovalInv (maxNumnodes : Nat) (st : RemovalState) : Prop where
  exit : ExitInv maxNumnodes st.outer
  quiet : Quiet st.outer
  users : UsersInv st.users
  live : LiveInv st.users
  /-- A thread that is in `xstat_ipmi_restart` lives. -/
  inside : ∀ tid, st.users.samplers tid ≠ .idle →
    ∃ th, st.outer.core.samplers tid = some th ∧ th.pc.Alive
  begun : st.users.exit ≠ .notCalled → st.outer.exit = .returned

theorem removalInv_start (maxNumnodes : Nat) (nodeOnline : Nat → Bool) :
    RemovalInv maxNumnodes (RemovalState.start maxNumnodes nodeOnline) where
  exit := exitInv_start maxNumnodes nodeOnline
  quiet := trivial
  users := UsersInv.start 3
  live := ⟨(fun _ _ names => by cases names), fun _ member => by cases member⟩
  inside := fun _ busy => absurd rfl busy
  begun := fun called => absurd rfl called

/-- Once the class is unregistered no thread is in `xstat_ipmi_restart`. -/
theorem RemovalInv.idle {st : RemovalState} (inv : RemovalInv maxNumnodes st)
    (returned : st.outer.exit = .returned) (tid : Nat) : st.users.samplers tid = .idle := by
  by_contra busy
  obtain ⟨th, thread, alive⟩ := inv.inside tid busy
  exact inv.exit.safe.gone returned tid th thread alive

theorem RemovalInv.step {groups : Fin 3 → IpmiGroup} {st st' : RemovalState} {a : RemovalAction}
    (inv : RemovalInv maxNumnodes st) (noLateOn : NoLateOn st a)
    (taken : st.step groups maxNumnodes a = some st') : RemovalInv maxNumnodes st' := by
  cases a with
  | outer a =>
    obtain ⟨admitted, rest⟩ := Option.ite_none_right_eq_some.mp taken
    obtain ⟨outer, stepped, rfl⟩ := Option.map_eq_some_iff.mp rest
    constructor
    case exit => exact inv.exit.step (inv.quiet.freesIdle inv.exit.ctrl a) stepped
    case quiet =>
      exact inv.quiet.step inv.exit.ctrl
        (fun i buf here is => noLateOn i buf here (congrArg _ is)) stepped
    case users => exact inv.users
    case live => exact inv.live
    case inside =>
      intro tid busy
      refine alive_of_exitStep stepped (fun input is => ?_) (inv.inside tid busy)
      rw [is] at admitted
      exact busy (eq_of_beq admitted)
    case begun => exact fun called => returned_of_step stepped (inv.begun called)
  | users a =>
    obtain ⟨admitted, rest⟩ := Option.ite_none_right_eq_some.mp taken
    obtain ⟨users, stepped, rfl⟩ := Option.map_eq_some_iff.mp rest
    have exiting : a = .exit → st.outer.exit = .returned := by
      rintro rfl
      exact eq_of_beq admitted
    constructor
    case exit => exact inv.exit
    case quiet => exact inv.quiet
    case users => exact inv.users.step stepped
    case live => exact inv.live.step inv.users stepped fun is => inv.idle (exiting is)
    case inside =>
      intro tid busy
      by_cases enters : ∃ g, a = .restart tid g
      · obtain ⟨g, rfl⟩ := enters
        obtain ⟨th, thread, here⟩ := (Option.any_eq_true _ _).mp admitted
        refine ⟨th, thread, ?_⟩
        cases place : th.pc with
        | restart i => exact ⟨(fun none => by cases none), fun none => by cases none⟩
        | _ =>
          rw [place] at here
          cases here
      · refine inv.inside tid fun idle => busy ?_
        exact idle_of_step stepped (fun g is => enters ⟨g, is⟩) idle
    case begun =>
      intro called
      by_cases exits : a = .exit
      · exact exiting exits
      · exact inv.begun fun notCalled => called ((exit_of_step stepped exits).trans notCalled)

end Removal

/-- **Removal with the IPMI part.** In every run of the module, its removal and the driver in which no
write of `on` is served between the end of `stop_stat` in `xstat_exit` and `class_unregister`, whatever
else is written and however the steps fall: no sampler uses a freed node, none is alive once the class is
unregistered; every request of the run was made with a user that was not destroyed; and no thread is in
`xstat_ipmi_restart` once `xstat_ipmi_exit` is called. -/
theorem removal_requests_living {maxNumnodes : Nat} {nodeOnline : Nat → Bool}
    {groups : Fin 3 → IpmiGroup} {trace : List (RemovalState × RemovalAction)} {st : RemovalState}
    (run : Run (RemovalState.step groups maxNumnodes) (.start maxNumnodes nodeOnline) trace st)
    (noLateOn : ∀ x ∈ trace, NoLateOn x.1 x.2) :
    ExitSafe st.outer ∧ (∀ r ∈ st.users.requests, r.living = true) ∧
      (st.users.exit ≠ .notCalled → ∀ tid, st.users.samplers tid = .idle) := by
  have inv := run.invariant NoLateOn (removalInv_start maxNumnodes nodeOnline)
    (fun _ _ _ before allowed taken => before.step allowed taken) noLateOn
  exact ⟨inv.exit.safe, inv.live.living, fun called tid => inv.idle (inv.begun called) tid⟩

/-- A check that admits exactly the steps without a late `on`. -/
def noLateOnCheck (st : RemovalState) (a : RemovalAction) : Bool :=
  match st.outer.exit, a with
  | .unregistering _, .outer (.module (.storeCtrlAttr buf)) =>
    decide (storeCtrlAttr buf ≠ some .startStat)
  | _, _ => true

theorem noLateOn_of_check {st : RemovalState} {a : RemovalAction}
    (admitted : noLateOnCheck st a = true) : NoLateOn st a := by
  rintro i buf here rfl
  simp only [noLateOnCheck, here] at admitted
  exact of_decide_eq_true admitted

/-- An interface is announced, and each group gets its user. -/
def announced : List (UsersAction 3) := .newSmi :: List.replicate 7 (.registerBmc 0 true)

/-- The node's sampler requests the readings of a group of seven sensors. -/
def requested (g : Fin 3) : List (UsersAction 3) := .restart 0 g :: List.replicate 36 (.sampler 0)

/-- Sampling is switched off, and the sampler goes on from its iteration for the first group and ends. -/
def switchedOffThere : List ModuleAction :=
  .storeCtrlAttr "off".toList :: .stopStat :: ((List.range 22).map fun k =>
    .sampler 0 { (default : Input) with now := BitVec.ofNat 64 (k + 30) })

/-- The module is removed, up to `xstat_ipmi_exit`. -/
def removed : List ExitAction :=
  [.module .stopStat, .module .stopStat, .xstatExit, .unregisterXstatNode, .classUnregister]

/-- A node is sampled, with requests for a group, and switched off; then the module is removed. -/
def removedAfterRequests (g : Fin 3) : List RemovalAction :=
  List.flatten [announced.map .users, (switchedOn 30).map fun a => .outer (.module a),
    (requested g).map .users, switchedOffThere.map fun a => .outer (.module a), removed.map .outer,
    List.replicate 17 (.users .exit)]

theorem removal_requests_living_removed :
    let groups := chameleonGroups ![0x1000, 0x1100, 0x1200] (by decide)
    ∃ trace st, Run (RemovalState.step groups 1) (.start 1 fun _ => true) trace st ∧
      trace.map Prod.snd = removedAfterRequests 0 ∧ st.users.exit = .returned ∧
      st.users.requests.length = 7 ∧ st.users.destroyed = [0, 1, 2] ∧
      ∀ r ∈ st.users.requests, r.living = true := by
  intro groups
  have done : (exec (guarded noLateOnCheck (RemovalState.step groups 1)) (.start 1 fun _ => true)
      (removedAfterRequests 0)).any fun st => st.users.exit == .returned &&
        st.users.requests.length == 7 && st.users.destroyed == [0, 1, 2] := by decide +kernel
  obtain ⟨trace, st, run, same, passed⟩ := run_of_exec_any done
  simp only [Bool.and_eq_true, beq_iff_eq] at passed
  obtain ⟨⟨returned, requests⟩, destroyed⟩ := passed
  obtain ⟨plain, admitted⟩ := run.of_guarded
  exact ⟨trace, st, plain, same, returned, requests, destroyed,
    (removal_requests_living plain fun x member => noLateOn_of_check (admitted x member)).2.1⟩

end Xstats.Xstat
