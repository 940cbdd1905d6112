/-
**The message ids of a group** (`xstat_ipmi_restart`).

All nodes take the ids of their requests from one counter for each group, `msgid = ctx->msgid++`, under
the group's lock. The increment is a read and a write with any number of other parties' steps between
them, and the request follows after the lock is released, so that requests may go out in another order
than their ids.

* `LockInv.step`: at most one party is between the acquisition of a group's lock and its release.
* `MsgidInv.step`: an id that was given out is with one sampler or in one request.
* `msgids_apart`: no two requests of a group carry the same id while fewer than `2 ^ 32` were given out,
  and none is left out.
-/

import Xstats.Lib.Locks
import Xstats.Xstat.IpmiUsers

namespace Xstats.Xstat

open Transition

/-! ### The lock -/

/-- The group whose lock a sampler holds. -/
def RestartPc.holds {n : Nat} : RestartPc n → Option (Fin n)
  | .locked g _ _ | .loaded g _ _ _ | .stored g _ _ _ _ => some g
  | _ => none

/-- The group whose lock `xstat_ipmi_exit` holds. -/
def IpmiExitPc.holds {n : Nat} : IpmiExitPc n → Option (Fin n)
  | .locked g | .loaded g _ | .cleared g _ => some g
  | _ => none

/-- The group whose lock a party holds. -/
def UsersState.holds {n : Nat} (s : UsersState n) : LockHolder → Option (Fin n)
  | .sampler tid => (s.samplers tid).holds
  | .exit => s.exit.holds

/-- Who holds a lock is who it was given to. -/
def LockInv {n : Nat} (s : UsersState n) : Prop := Locks.Agree s.holds s.lock

namespace LockInv

variable {n : Nat} {groups : Fin n → IpmiGroup} {s s' : UsersState n}

theorem start (n : Nat) : LockInv (UsersState.start n) := by
  have outside : (UsersState.start n).holds = fun _ => none := by
    funext party
    cases party <;> rfl
  show Locks.Agree _ _
  rw [outside]
  exact Locks.agree_none

theorem samplers_setSampler (s : UsersState n) (tid : Nat) (pc : RestartPc n) (t : Nat) :
    (s.setSampler tid pc).samplers t = if t = tid then pc else s.samplers t :=
  Function.update_apply _ _ _ _

theorem holds_setSampler (s : UsersState n) (tid : Nat) (pc : RestartPc n) :
    (s.setSampler tid pc).holds = Function.update s.holds (.sampler tid) pc.holds := by
  funext party
  cases party with
  | sampler t =>
    show (Function.update s.samplers tid pc t).holds = _
    rw [Function.update_apply, Function.update_apply]
    by_cases same : t = tid
    · simp [same]
    · simp [same, UsersState.holds]
  | exit =>
    have other : LockHolder.exit ≠ .sampler tid := by simp
    exact (Function.update_of_ne other _ s.holds).symm

theorem holds_setExit (s : UsersState n) (pc : IpmiExitPc n) :
    ({ s with exit := pc } : UsersState n).holds = Function.update s.holds .exit pc.holds := by
  funext party
  cases party with
  | sampler t =>
    have other : LockHolder.sampler t ≠ .exit := by simp
    exact (Function.update_of_ne other _ s.holds).symm
  | exit => exact (Function.update_self LockHolder.exit pc.holds s.holds).symm

/-- A sampler moved that is inside of the same lock as before, or of none. -/
theorem setSampler (inv : LockInv s) {tid : Nat} {pc : RestartPc n}
    (same : pc.holds = (s.samplers tid).holds) : LockInv (s.setSampler tid pc) := by
  show Locks.Agree _ s.lock
  rw [holds_setSampler, same]
  exact (Function.update_eq_self (LockHolder.sampler tid) s.holds).symm ▸ inv

/-- The same for `xstat_ipmi_exit`. -/
theorem setExit (inv : LockInv s) {pc : IpmiExitPc n} (same : pc.holds = s.exit.holds) :
    LockInv { s with exit := pc } := by
  show Locks.Agree _ s.lock
  rw [holds_setExit, same]
  exact (Function.update_eq_self LockHolder.exit s.holds).symm ▸ inv

theorem step (inv : LockInv s) {a : UsersAction n} (taken : s.step groups a = some s') :
    LockInv s' := by
  cases UsersState.move_of_step taken with
  | announces | finds | lacks | callReturns | creates | createFails => exact inv
  | enters here | leaves here | passes here | loads here =>
    exact inv.setSampler (by rw [here]; rfl)
  | @stores tid g _ _ msgid here =>
    have kept : LockInv (s.storeMsgid g (msgid + 1)) := inv
    exact kept.setSampler (congrArg RestartPc.holds here).symm
  | @requests tid g user i msgid serial config here =>
    have kept : LockInv (s.request groups g user i config msgid serial) := inv
    exact kept.setSampler (congrArg RestartPc.holds here).symm
  | @locks tid g _ _ here free =>
    have outside : s.holds (.sampler tid) = none := congrArg RestartPc.holds here
    show Locks.Agree _ (Function.update s.lock g (some (.sampler tid)))
    rw [holds_setSampler]
    exact inv.acquire outside free
  | @unlocks tid g _ _ _ _ here =>
    have inside : s.holds (.sampler tid) = some g := congrArg RestartPc.holds here
    show Locks.Agree _ (Function.update s.lock g none)
    rw [holds_setSampler]
    exact inv.release inside
  | exitBegins here | exitLoads here => exact inv.setExit (congrArg IpmiExitPc.holds here).symm
  | @exitClears g user here =>
    have kept : LockInv { s with user := Function.update s.user g none } := inv
    exact kept.setExit (congrArg IpmiExitPc.holds here).symm
  | @exitDestroys g user here =>
    have kept : LockInv { s with destroyed := s.destroyed ++ user.toList } := inv
    exact kept.setExit (congrArg IpmiExitPc.holds here).symm
  | exitReturns here =>
    have kept : LockInv { s with watched := false } := inv
    exact kept.setExit (congrArg IpmiExitPc.holds here).symm
  | @exitLocks i here inside free =>
    have outside : s.holds .exit = none := congrArg IpmiExitPc.holds here
    show Locks.Agree _ (Function.update s.lock ⟨i, inside⟩ (some .exit))
    rw [holds_setExit]
    exact inv.acquire outside free
  | @exitUnlocks g _ here =>
    have inside : s.holds .exit = some g := congrArg IpmiExitPc.holds here
    show Locks.Agree _ (Function.update s.lock g none)
    rw [holds_setExit]
    exact inv.release inside

end LockInv

/-! ### The ids -/

/-- The id that a sampler was given and has not sent: its group, its place among the ids, its value. -/
def RestartPc.carries {n : Nat} : RestartPc n → Option (Fin n × Nat × BitVec 32)
  | .stored g _ _ msgid serial | .unlocked g _ _ msgid serial => some (g, serial, msgid)
  | _ => none

/-- Where the ids are that a group gave out. -/
structure MsgidInv {n : Nat} (groups : Fin n → IpmiGroup) (s : UsersState n) : Prop where
  msgid : ∀ g, s.msgid g = BitVec.ofNat 32 (s.handed g)
  loaded : ∀ tid g user i m, s.samplers tid = .loaded g user i m → m = s.msgid g
  carried : ∀ tid g k m, (s.samplers tid).carries = some (g, k, m) →
    m = BitVec.ofNat 32 k ∧ k < s.handed g
  apart : ∀ tid tid' g k m m', (s.samplers tid).carries = some (g, k, m) →
    (s.samplers tid').carries = some (g, k, m') → tid = tid'
  sent : ∀ r ∈ s.requests, r.serial < s.handed r.group ∧ ∃ i config,
    (groups r.group).ctx.ctxs[i]? = some config ∧
      r.request = (groups r.group).request (BitVec.ofNat 32 r.serial) i config
  unsent : ∀ r ∈ s.requests, ∀ tid m, (s.samplers tid).carries ≠ some (r.group, r.serial, m)
  once : s.requests.Pairwise fun r r' => r.group = r'.group → r.serial ≠ r'.serial
  somewhere : ∀ g k, k < s.handed g → (∃ r ∈ s.requests, r.group = g ∧ r.serial = k) ∨
    ∃ tid m, (s.samplers tid).carries = some (g, k, m)

namespace MsgidInv

variable {n : Nat} {groups : Fin n → IpmiGroup} {s s' : UsersState n}

theorem start (groups : Fin n → IpmiGroup) : MsgidInv groups (UsersState.start n) where
  msgid := fun _ => rfl
  loaded := fun _ _ _ _ _ here => by cases here
  carried := fun _ _ _ _ carries => by cases carries
  apart := fun _ _ _ _ _ _ carries => by cases carries
  sent := fun _ member => by cases member
  unsent := fun _ member => by cases member
  once := .nil
  somewhere := fun _ _ below => absurd below (Nat.not_lt_zero _)

/-- A sampler moved that carries what it did. -/
theorem setSampler (inv : MsgidInv groups s) {tid : Nat} {pc : RestartPc n}
    (same : pc.carries = (s.samplers tid).carries)
    (loaded : ∀ g user i m, pc = .loaded g user i m → m = s.msgid g) :
    MsgidInv groups (s.setSampler tid pc) := by
  have carries : ∀ t, ((s.setSampler tid pc).samplers t).carries = (s.samplers t).carries := by
    intro t
    rw [LockInv.samplers_setSampler]
    split
    · rw [same, ‹t = tid›]
    · rfl
  constructor
  case msgid => exact inv.msgid
  case loaded =>
    intro t g user i m here
    rw [LockInv.samplers_setSampler] at here
    split at here
    · exact loaded g user i m here
    · exact inv.loaded t g user i m here
  case carried => exact fun t g k m held => inv.carried t g k m (carries t ▸ held)
  case apart =>
    exact fun t t' g k m m' held held' => inv.apart t t' g k m m' (carries t ▸ held) (carries t' ▸ held')
  case sent => exact inv.sent
  case unsent => exact fun r member t m held => inv.unsent r member t m (carries t ▸ held)
  case once => exact inv.once
  case somewhere =>
    intro g k below
    refine (inv.somewhere g k below).imp_right ?_
    rintro ⟨t, m, held⟩
    exact ⟨t, m, (carries t).trans held⟩

/-- The second half of the increment: the sampler that holds the lock is given the id it had read. -/
theorem storeMsgid (inv : MsgidInv groups s) (locks : LockInv s) {tid : Nat} {g : Fin n}
    {user i : Nat} {msgid : BitVec 32} (here : s.samplers tid = .loaded g user i msgid) :
    MsgidInv groups ((s.storeMsgid g (msgid + 1)).setSampler tid
      (.stored g user i msgid (s.handed g))) := by
  have read : msgid = s.msgid g := inv.loaded tid g user i msgid here
  have old : ∀ t, t ≠ tid → ((s.storeMsgid g (msgid + 1)).setSampler tid
      (.stored g user i msgid (s.handed g))).samplers t = s.samplers t :=
    fun t other => Function.update_of_ne other _ _
  have new : ((s.storeMsgid g (msgid + 1)).setSampler tid
      (.stored g user i msgid (s.handed g))).samplers tid = .stored g user i msgid (s.handed g) :=
    Function.update_self ..
  have more : ∀ {g' : Fin n} {k : Nat}, k < s.handed g' →
      k < Function.update s.handed g (s.handed g + 1) g' := by
    intro g' k below
    rw [Function.update_apply]
    split
    · exact Nat.lt_succ_of_lt (‹g' = g› ▸ below)
    · exact below
  -- The place is one that was not given out before.
  have fresh : ∀ {t : Nat} {m : BitVec 32}, (s.samplers t).carries ≠ some (g, s.handed g, m) :=
    fun held => Nat.lt_irrefl _ (inv.carried _ _ _ _ held).2
  constructor
  case msgid =>
    intro g'
    show Function.update s.msgid g (msgid + 1) g' =
      BitVec.ofNat 32 (Function.update s.handed g (s.handed g + 1) g')
    rw [Function.update_apply, Function.update_apply]
    split
    · rw [read, inv.msgid g, BitVec.ofNat_add]
      rfl
    · exact inv.msgid g'
  case loaded =>
    intro t g' user' i' m place
    by_cases mine : t = tid
    · subst mine
      rw [new] at place
      cases place
    · rw [old t mine] at place
      have apart : g' ≠ g := by
        -- Two samplers do not hold one lock.
        rintro rfl
        have theirs : s.holds (.sampler t) = some g' := congrArg RestartPc.holds place
        have ours : s.holds (.sampler tid) = some g' := congrArg RestartPc.holds here
        exact mine (LockHolder.sampler.inj (locks.exclusive theirs ours))
      rw [inv.loaded t g' user' i' m place]
      exact (Function.update_of_ne apart _ _).symm
  case carried =>
    intro t g' k m held
    by_cases mine : t = tid
    · subst mine
      rw [new] at held
      cases held
      refine ⟨read.trans (inv.msgid g), ?_⟩
      show s.handed g < Function.update s.handed g (s.handed g + 1) g
      rw [Function.update_self]
      exact Nat.lt_succ_self _
    · rw [old t mine] at held
      exact ⟨(inv.carried t g' k m held).1, more (inv.carried t g' k m held).2⟩
  case apart =>
    intro t t' g' k m m' held held'
    by_cases mine : t = tid
    · by_cases mine' : t' = tid
      · exact mine.trans mine'.symm
      · rw [mine, new] at held
        rw [old t' mine'] at held'
        cases held
        exact absurd held' fresh
    · rw [old t mine] at held
      by_cases mine' : t' = tid
      · rw [mine', new] at held'
        cases held'
        exact absurd held fresh
      · rw [old t' mine'] at held'
        exact inv.apart t t' g' k m m' held held'
  case sent => exact fun r member => ⟨more (inv.sent r member).1, (inv.sent r member).2⟩
  case unsent =>
    intro r member t m held
    by_cases mine : t = tid
    · rw [mine, new] at held
      simp only [RestartPc.carries, Option.some.injEq, Prod.mk.injEq] at held
      obtain ⟨group, serial, _⟩ := held
      have below := (inv.sent r member).1
      rw [← group, ← serial] at below
      exact Nat.lt_irrefl _ below
    · rw [old t mine] at held
      exact inv.unsent r member t m held
  case once => exact inv.once
  case somewhere =>
    intro g' k below
    have split : k < s.handed g' ∨ g' = g ∧ k = s.handed g := by
      change k < Function.update s.handed g (s.handed g + 1) g' at below
      rw [Function.update_apply] at below
      split at below
      · rcases Nat.lt_succ_iff_lt_or_eq.mp below with lower | last
        · exact .inl (‹g' = g› ▸ lower)
        · exact .inr ⟨‹g' = g›, last⟩
      · exact .inl below
    rcases split with before | ⟨rfl, rfl⟩
    · refine (inv.somewhere g' k before).imp_right ?_
      rintro ⟨t, m, held⟩
      have other : t ≠ tid := by
        rintro rfl
        rw [here] at held
        cases held
      exact ⟨t, m, (old t other).symm ▸ held⟩
    · exact .inr ⟨tid, msgid, new.symm ▸ rfl⟩

/-- The request: the id goes over from the sampler into it. -/
theorem request (inv : MsgidInv groups s) {tid : Nat} {g : Fin n} {user i : Nat}
    {msgid : BitVec 32} {serial : Nat} {config : IpmiSensorConfig}
    (here : s.samplers tid = .unlocked g user i msgid serial)
    (entry : (groups g).ctx.ctxs[i]? = some config) :
    MsgidInv groups ((s.request groups g user i config msgid serial).setSampler tid
      (.loop g (some user) i)) := by
  have mine : (s.samplers tid).carries = some (g, serial, msgid) := by rw [here]; rfl
  obtain ⟨value, below⟩ := inv.carried tid g serial msgid mine
  have carries : ∀ {t : Nat} {x : Fin n × Nat × BitVec 32},
      (((s.request groups g user i config msgid serial).setSampler tid
        (.loop g (some user) i)).samplers t).carries = some x →
      t ≠ tid ∧ (s.samplers t).carries = some x := by
    intro t x held
    rw [LockInv.samplers_setSampler] at held
    split at held
    · cases held
    · exact ⟨‹_›, held⟩
  constructor
  case msgid => exact inv.msgid
  case loaded =>
    intro t g' user' i' m place
    rw [LockInv.samplers_setSampler] at place
    split at place
    · cases place
    · exact inv.loaded t g' user' i' m place
  case carried => exact fun t g' k m held => inv.carried t g' k m (carries held).2
  case apart =>
    exact fun t t' g' k m m' held held' => inv.apart t t' g' k m m' (carries held).2 (carries held').2
  case sent =>
    intro r member
    rcases List.mem_append.mp member with old | new
    · exact inv.sent r old
    · rw [List.mem_singleton] at new
      subst new
      exact ⟨below, i, config, entry, by rw [value]⟩
  case unsent =>
    intro r member t m held
    obtain ⟨other, held⟩ := carries held
    rcases List.mem_append.mp member with old | new
    · exact inv.unsent r old t m held
    · rw [List.mem_singleton] at new
      subst new
      exact other (inv.apart t tid g serial m msgid held mine)
  case once =>
    refine List.pairwise_append.mpr ⟨inv.once, List.pairwise_singleton _ _, ?_⟩
    intro r member r' last group serials
    rw [List.mem_singleton] at last
    subst last
    exact inv.unsent r member tid msgid (by rw [mine, group, serials])
  case somewhere =>
    intro g' k under
    rcases inv.somewhere g' k under with ⟨r, member, group, place⟩ | ⟨t, m, held⟩
    · exact .inl ⟨r, List.mem_append_left _ member, group, place⟩
    · by_cases same : t = tid
      · rw [same, mine] at held
        cases held
        exact .inl ⟨_, List.mem_append_right _ (List.mem_singleton_self _), rfl, rfl⟩
      · refine .inr ⟨t, m, ?_⟩
        rw [LockInv.samplers_setSampler, if_neg same]
        exact held

/-- **A step keeps the invariant.** -/
theorem step (inv : MsgidInv groups s) (locks : LockInv s) {a : UsersAction n}
    (taken : s.step groups a = some s') : MsgidInv groups s' := by
  cases UsersState.move_of_step taken with
  | announces | finds | lacks | callReturns | creates | createFails => exact { inv with }
  | exitBegins | exitLocks | exitLoads | exitClears | exitUnlocks | exitDestroys | exitReturns =>
    exact { inv with }
  | enters here | leaves here | passes here =>
    exact inv.setSampler (by rw [here]; rfl) fun _ _ _ _ place => by cases place
  | @locks tid g user i here =>
    have kept : MsgidInv groups (s.setLock g (some (.sampler tid))) := { inv with }
    exact kept.setSampler (by
      show _ = (s.samplers tid).carries
      rw [here]
      rfl) fun _ _ _ _ place => by cases place
  | loads here =>
    exact inv.setSampler (by rw [here]; rfl) fun _ _ _ _ place => by cases place; rfl
  | stores here => exact inv.storeMsgid locks here
  | @unlocks tid g user i msgid serial here =>
    have kept : MsgidInv groups (s.setLock g none) := { inv with }
    exact kept.setSampler (by
      show _ = (s.samplers tid).carries
      rw [here]
      rfl) fun _ _ _ _ place => by cases place
  | requests here entry => exact inv.request here entry

end MsgidInv

/-! ### Runs -/

/-- **The ids of a group's requests.** In every state of every run, however the samplers' steps fall: a
request is one for a sensor of its group, with that sensor's number and address; no two requests of a
group carry the same of its ids, and so not the same number while at most `2 ^ 32` were given out; and
where no sampler has one in hand, every id that the group gave out is in a request. -/
theorem msgids_apart {n : Nat} {groups : Fin n → IpmiGroup}
    {trace : List (UsersState n × UsersAction n)} {s : UsersState n}
    (run : Run (UsersState.step groups) (.start n) trace s) :
    (∀ r ∈ s.requests, r.serial < s.handed r.group ∧ ∃ i config,
      (groups r.group).ctx.ctxs[i]? = some config ∧
        r.request = (groups r.group).request (BitVec.ofNat 32 r.serial) i config) ∧
    (s.requests.Pairwise fun r r' => r.group = r'.group → r.serial ≠ r'.serial) ∧
    (∀ g, s.handed g ≤ 2 ^ 32 →
      ((s.requests.filter fun r => r.group = g).map fun r => r.request.msgid).Nodup) ∧
    ∀ g, (∀ tid k m, (s.samplers tid).carries ≠ some (g, k, m)) →
      ∀ k < s.handed g, ∃ r ∈ s.requests, r.group = g ∧ r.request.msgid = BitVec.ofNat 32 k := by
  obtain ⟨_, inv⟩ := run.invariant (P := fun s => LockInv s ∧ MsgidInv groups s) (fun _ _ => True)
    ⟨LockInv.start n, MsgidInv.start groups⟩
    (fun _ _ _ before _ taken => ⟨before.1.step taken, before.2.step before.1 taken⟩)
    fun _ _ => trivial
  have msgid : ∀ r ∈ s.requests, r.request.msgid = BitVec.ofNat 32 r.serial := by
    intro r member
    obtain ⟨_, i, config, _, request⟩ := inv.sent r member
    rw [request]
    rfl
  refine ⟨inv.sent, inv.once, fun g few => ?_, fun g idle k below => ?_⟩
  · refine List.pairwise_map.mpr (List.pairwise_filter.mpr (inv.once.imp_of_mem ?_))
    intro r r' member member' apart here here'
    simp only [decide_eq_true_eq] at here here'
    rw [msgid r member, msgid r' member']
    intro same
    have serial := (inv.sent r member).1
    have serial' := (inv.sent r' member').1
    rw [here] at serial
    rw [here'] at serial'
    have values := congrArg BitVec.toNat same
    rw [BitVec.toNat_ofNat, BitVec.toNat_ofNat, Nat.mod_eq_of_lt (by omega),
      Nat.mod_eq_of_lt (by omega)] at values
    exact apart (here.trans here'.symm) values
  · rcases inv.somewhere g k below with ⟨r, member, group, rfl⟩ | ⟨tid, m, held⟩
    · exact ⟨r, member, group, msgid r member⟩
    · exact absurd held (idle tid k m)

/-- Two samplers take their ids one after the other, and the second one's request goes out first. -/
def requestsCross (g : Fin 1) : List (UsersAction 1) :=
  .newSmi :: .registerBmc 0 true :: .registerBmc 0 true :: .restart 0 g :: .restart 1 g ::
    (List.replicate 4 (.sampler 0) ++ (List.replicate 5 (.sampler 1) ++ [.sampler 0]))

theorem msgids_apart_requests_cross :
    ∃ trace s, Run (UsersState.step IpmiState.miscGroup) (.start 1) trace s ∧
      trace.map Prod.snd = requestsCross 0 ∧ s.requests.map UserRequest.serial = [1, 0] ∧
      ((s.requests.filter fun r => r.group = 0).map fun r => r.request.msgid).Nodup := by
  have done : (exec (UsersState.step IpmiState.miscGroup) (.start 1) (requestsCross 0)).any fun s =>
      s.requests.map UserRequest.serial == [1, 0] && s.handed 0 == 2 := by decide
  obtain ⟨trace, s, run, same, passed⟩ := run_of_exec_any done
  simp only [Bool.and_eq_true, beq_iff_eq] at passed
  exact ⟨trace, s, run, same, passed.1, (msgids_apart run).2.2.1 0 (by rw [passed.2]; decide)⟩

end Xstats.Xstat
