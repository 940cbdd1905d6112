/-
**At most one sampler in haswellstat and sbstat, and when.**

The flag `on` is switched under `ctrl_lock`, but the thread is created and stopped outside it, through
the one variable `kthread_task`. A write that switches the flag while an earlier one is still at work
therefore starts a second sampler next to the first, which then no `set_off` reaches. `SwitchSafe` is
the condition on a step that excludes this.

* `SwitchInv.step`: every step that meets the condition keeps the invariant.
* `one_sampler_of_switchSafe`: so do whole runs, for any number of clients and whichever thread
  creations succeed.
* `two_samplers`: without the condition two clients suffice for two living samplers.
-/

import Xstats.Haswellstat.Control

namespace Xstats.Haswellstat

open Transition

/-! ### The operations under way -/

/-- A `set_on` that has switched the flag and has not yet stored `kthread_task`. -/
def ClientPc.creating : ClientPc → Bool
  | .unlock .setOn false | .reset _ | .kthreadCreate | .store _ => true
  | _ => false

/-- A `set_off` that has switched the flag and has not yet called `kthread_stop`. -/
def ClientPc.cleared : ClientPc → Bool
  | .unlock .setOff true | .unlock .exit true | .kthreadStop _ => true
  | _ => false

/-- A `set_off` that has switched the flag and may still have to stop the thread, or waits for it. -/
def ClientPc.Covers (pc : ClientPc) (tid : Nat) : Prop :=
  pc.cleared = true ∨ ∃ call, pc = .join call tid

namespace ControlState

variable {κ : Type} [DecidableEq κ]

/-- Whether a client is in a `set_off` that has switched the flag while the sampler it is to stop has
not yet returned. -/
def stopping (s : ControlState κ) (c : κ) : Bool :=
  match s.clients c with
  | .join _ tid => s.alive tid
  | pc => pc.cleared && s.livingTask.isSome

/-- The write that switches `on` to true finds no earlier one that is still to stop its sampler, and
the write that switches it to false finds none that is still to store the sampler it creates. -/
def SwitchSafe (s : ControlState κ) : ControlAction κ → Prop
  | .client c _ => ∀ call, s.clients c = .switch call → s.on ≠ call.target →
      ∀ c', if call.target then s.stopping c' = false else (s.clients c').creating = false
  | _ => True

/-- What is expected of the samplers in a state. -/
structure OneSampler (s : ControlState κ) : Prop where
  unique : ∀ t t', s.alive t = true → s.alive t' = true → t = t'
  named : (∀ c, (s.clients c).Outside) → ∀ t, s.alive t = true → s.kthreadTask = .thread t
  off : s.on = false → (∀ c, (s.clients c).Outside) → ∀ t, s.alive t = false

/-! ### The invariant -/

/-- The flag, the clients that have switched it, `kthread_task` and the living threads. -/
structure SwitchInv (s : ControlState κ) : Prop where
  single : ∀ c c', (s.clients c).creating = true → (s.clients c').creating = true → c = c'
  /-- While a sampler is being created, no other is alive. -/
  creating : ∀ c, (s.clients c).creating = true →
    s.on = true ∧ ∀ t, s.alive t = true → s.clients c = .store (.thread t)
  named : (∀ c, (s.clients c).creating = false) → ∀ t, s.alive t = true → s.kthreadTask = .thread t
  /-- While the flag is clear, some client takes care of each living thread. -/
  covered : s.on = false → ∀ t, s.alive t = true → ∃ c, (s.clients c).Covers t

omit [DecidableEq κ] in
theorem switchInv_micstatInit : (micstatInit κ).SwitchInv := by
  have dead : ∀ t, (micstatInit κ).alive t = true → False := fun t living => by cases living
  constructor
  case single => exact fun c _ mine => by cases mine
  case creating => exact fun c mine => by cases mine
  case named => exact fun _ t living => (dead t living).elim
  case covered => exact fun _ t living => (dead t living).elim

section Invariant

variable {s s' : ControlState κ} {c : κ} {pc : ClientPc}

omit [DecidableEq κ] in
/-- While the flag is clear, `kthread_task` names every living thread. -/
theorem SwitchInv.livingTask_of_off (inv : s.SwitchInv) (off : s.on = false) {t : Nat}
    (living : s.alive t = true) : s.livingTask = some t := by
  have none_creating : ∀ c, (s.clients c).creating = false := by
    intro c
    by_contra mine
    have on := (inv.creating c (Bool.not_eq_false _ ▸ mine)).1
    rw [off] at on
    cases on
  exact s.livingTask_eq_some.mpr ⟨inv.named none_creating t living, living⟩

omit [DecidableEq κ] in
/-- Steps that change neither the clients nor the flag nor `kthread_task`. -/
theorem SwitchInv.mono (inv : s.SwitchInv) (clients : s'.clients = s.clients) (on : s'.on = s.on)
    (task : s'.kthreadTask = s.kthreadTask)
    (older : ∀ t, s'.alive t = true → s.alive t = true) : s'.SwitchInv := by
  constructor
  case single =>
    rw [clients]
    exact inv.single
  case creating =>
    rw [clients, on]
    intro c mine
    have before := inv.creating c mine
    exact ⟨before.1, fun t living => before.2 t (older t living)⟩
  case named =>
    rw [clients, task]
    exact fun others t living => inv.named others t (older t living)
  case covered =>
    rw [clients, on]
    exact fun off t living => inv.covered off t (older t living)

/-- Steps of a client that change neither the flag nor `kthread_task`. -/
theorem SwitchInv.client (inv : s.SwitchInv) (clients : s'.clients = Function.update s.clients c pc)
    (on : s'.on = s.on) (task : s'.kthreadTask = s.kthreadTask)
    (older : ∀ t, s'.alive t = true → s.alive t = true)
    (creating : pc.creating = (s.clients c).creating) (unstored : ∀ r, s.clients c ≠ .store r)
    (covers : s.on = false → ∀ t, s.alive t = true → (s.clients c).Covers t → pc.Covers t) :
    s'.SwitchInv := by
  have same : ∀ c', (s'.clients c').creating = (s.clients c').creating := by
    intro c'
    rw [clients]
    by_cases mine : c' = c
    · rw [mine, Function.update_self, creating]
    · rw [Function.update_of_ne mine]
  constructor
  case single =>
    intro a b first second
    rw [same] at first second
    exact inv.single a b first second
  case creating =>
    intro c' mine
    rw [same] at mine
    rw [on]
    refine ⟨(inv.creating c' mine).1, fun t living => ?_⟩
    have stored := (inv.creating c' mine).2 t (older t living)
    have other : c' ≠ c := by
      rintro rfl
      exact unstored _ stored
    rw [clients, Function.update_of_ne other]
    exact stored
  case named =>
    intro others t living
    rw [task]
    exact inv.named (fun c' => by rw [← same]; exact others c') t (older t living)
  case covered =>
    intro off t living
    rw [on] at off
    obtain ⟨c', covered⟩ := inv.covered off t (older t living)
    refine ⟨c', ?_⟩
    rw [clients]
    by_cases mine : c' = c
    · subst mine
      rw [Function.update_self]
      exact covers off t (older t living) covered
    · rw [Function.update_of_ne mine]
      exact covered

/-- A client that is in no operation that switched the flag, before the step and after it. -/
theorem SwitchInv.passive (inv : s.SwitchInv) (clients : s'.clients = Function.update s.clients c pc)
    (on : s'.on = s.on) (task : s'.kthreadTask = s.kthreadTask)
    (older : ∀ t, s'.alive t = true → s.alive t = true) (before : (s.clients c).creating = false)
    (after : pc.creating = false) (uncovered : ∀ t, ¬ (s.clients c).Covers t) : s'.SwitchInv := by
  refine inv.client clients on task older (after.trans before.symm) ?_ ?_
  · intro r stored
    rw [stored] at before
    cases before
  · exact fun _ t _ covered => absurd covered (uncovered t)

/-- The write that sets the flag. -/
theorem SwitchInv.switchOn (inv : s.SwitchInv)
    (clients : s'.clients = Function.update s.clients c pc) (was : s.on = false)
    (on : s'.on = true) (alive : s'.alive = s.alive) (safe : ∀ c', s.stopping c' = false) :
    s'.SwitchInv := by
  have dead : ∀ t, s.alive t = false := by
    intro t
    by_contra living
    rw [Bool.not_eq_false] at living
    have named := inv.livingTask_of_off was living
    obtain ⟨c', cleared | ⟨call, waiting⟩⟩ := inv.covered was t living
    · have stops := safe c'
      unfold stopping at stops
      split at stops
      · next here =>
        rw [here] at cleared
        cases cleared
      · rw [cleared, named] at stops
        cases stops
    · have stops := safe c'
      simp only [stopping, waiting, living] at stops
      cases stops
  have idle : ∀ c', c' ≠ c → (s'.clients c').creating = false := by
    intro c' other
    rw [clients, Function.update_of_ne other]
    by_contra mine
    have set := (inv.creating c' (Bool.not_eq_false _ ▸ mine)).1
    rw [was] at set
    cases set
  have only : ∀ c', (s'.clients c').creating = true → c' = c := by
    intro c' mine
    by_contra other
    rw [idle c' other] at mine
    cases mine
  have none_alive : ∀ t, s'.alive t = true → False := by
    intro t living
    rw [alive, dead t] at living
    cases living
  constructor
  case single => exact fun a b first second => (only a first).trans (only b second).symm
  case creating => exact fun c' _ => ⟨on, fun t living => (none_alive t living).elim⟩
  case named => exact fun _ t living => (none_alive t living).elim
  case covered => exact fun _ t living => (none_alive t living).elim

/-- The write that clears the flag. -/
theorem SwitchInv.switchOff (inv : s.SwitchInv)
    (clients : s'.clients = Function.update s.clients c pc) (cleared : pc.cleared = true)
    (idle : pc.creating = false) (task : s'.kthreadTask = s.kthreadTask) (alive : s'.alive = s.alive)
    (safe : ∀ c', (s.clients c').creating = false) : s'.SwitchInv := by
  have none_creating : ∀ c', (s'.clients c').creating = false := by
    intro c'
    rw [clients]
    by_cases mine : c' = c
    · rw [mine, Function.update_self, idle]
    · rw [Function.update_of_ne mine]
      exact safe c'
  constructor
  case single =>
    intro a b mine
    rw [none_creating] at mine
    cases mine
  case creating =>
    intro a mine
    rw [none_creating] at mine
    cases mine
  case named =>
    rw [alive, task]
    exact fun _ => inv.named safe
  case covered =>
    refine fun _ t _ => ⟨c, .inl ?_⟩
    rw [clients, Function.update_self]
    exact cleared

/-- A client creates a thread. -/
theorem SwitchInv.create (inv : s.SwitchInv) (here : s.clients c = .kthreadCreate) {tid : Nat}
    (clients : s'.clients = Function.update s.clients c (.store (.thread tid))) (on : s'.on = s.on)
    (born : ∀ t, s'.alive t = true → t = tid ∨ s.alive t = true) : s'.SwitchInv := by
  have mine : (s.clients c).creating = true := by rw [here]; rfl
  have alone : ∀ t, s'.alive t = true → t = tid := by
    intro t living
    refine (born t living).resolve_right fun old => ?_
    have stored := (inv.creating c mine).2 t old
    rw [here] at stored
    cases stored
  have only : ∀ c', (s'.clients c').creating = true → c' = c := by
    intro c' creating
    by_contra other
    rw [clients, Function.update_of_ne other] at creating
    exact other (inv.single c' c creating mine)
  have stays : s'.clients c = .store (.thread tid) := by rw [clients, Function.update_self]
  constructor
  case single => exact fun a b first second => (only a first).trans (only b second).symm
  case creating =>
    intro c' creating
    rw [only c' creating, on]
    exact ⟨(inv.creating c mine).1, fun t living => by rw [stays, alone t living]⟩
  case named =>
    intro others
    have never := others c
    rw [stays] at never
    cases never
  case covered =>
    intro off
    rw [on, (inv.creating c mine).1] at off
    cases off

/-- A client stores what `kthread_create` returned. -/
theorem SwitchInv.store (inv : s.SwitchInv) {result : TaskPtr} (here : s.clients c = .store result)
    (clients : s'.clients = Function.update s.clients c .wakeUp) (on : s'.on = s.on)
    (task : s'.kthreadTask = result) (alive : s'.alive = s.alive) : s'.SwitchInv := by
  have mine : (s.clients c).creating = true := by rw [here]; rfl
  have none_creating : ∀ c', (s'.clients c').creating = false := by
    intro c'
    rw [clients]
    by_cases same : c' = c
    · rw [same, Function.update_self]
      rfl
    · rw [Function.update_of_ne same]
      by_contra creating
      exact same (inv.single c' c (Bool.not_eq_false _ ▸ creating) mine)
  constructor
  case single =>
    intro a b creating
    rw [none_creating] at creating
    cases creating
  case creating =>
    intro a creating
    rw [none_creating] at creating
    cases creating
  case named =>
    intro _ t living
    rw [alive] at living
    have stored := (inv.creating c mine).2 t living
    rw [here] at stored
    cases stored
    exact task
  case covered =>
    intro off
    rw [on, (inv.creating c mine).1] at off
    cases off

theorem SwitchInv.step {a : ControlAction κ} (inv : s.SwitchInv) (safe : s.SwitchSafe a)
    (taken : s.step a = some s') : s'.SwitchInv := by
  cases move_of_step taken with
  | ignored => exact inv
  | enters here | locks here | wakeSkips here | wakeFaults here =>
    exact inv.passive rfl rfl rfl (fun _ => id) (by rw [here]; rfl) rfl
      (by simp [here, ClientPc.Covers, ClientPc.cleared])
  | @wakes c _ tid here =>
    have same := (s.setClient c .idle).alive_mapSampler_of_same tid alive_wakeUp
    exact inv.passive rfl rfl rfl (fun t => by simp [same]) (by rw [here]; rfl) rfl
      (by simp [here, ClientPc.Covers, ClientPc.cleared])
  | @switches c _ call here =>
    by_cases unchanged : s.on = call.target
    · refine inv.passive rfl unchanged.symm rfl (fun _ => id) (by rw [here]; rfl) ?_
        (by simp [here, ClientPc.Covers, ClientPc.cleared])
      rw [unchanged]
      cases call <;> rfl
    · have others := safe call here unchanged
      cases call with
      | setOn => exact inv.switchOn rfl (Bool.not_eq_true _ ▸ unchanged) rfl rfl others
      | setOff | exit =>
        have was : s.on = true := Bool.not_eq_false _ ▸ unchanged
        rw [was]
        exact inv.switchOff rfl rfl rfl rfl rfl others
  | @unlocks c _ call lon here =>
    refine inv.client rfl rfl rfl (fun _ => id) ?_ (by simp [here]) ?_
    · rw [here]
      cases call <;> cases lon <;> rfl
    · intro _ t _
      rw [here]
      cases call <;> cases lon <;> simp [ClientPc.Covers, ClientPc.cleared, afterSwitch]
  | resets here | resetEnds here | createFails here =>
    exact inv.client rfl rfl rfl (fun _ => id) (by rw [here]; rfl) (by simp [here])
      (by simp [here, ClientPc.Covers, ClientPc.cleared])
  | creates here =>
    refine inv.create here rfl rfl fun t living => ?_
    by_cases new : t = s.nextTid
    · exact .inl new
    · exact .inr (by simpa only [ControlState.alive, Function.update_of_ne new] using living)
  | stores here => exact inv.store here rfl rfl rfl rfl
  | @stops c _ call tid here living =>
    have same := (s.setClient c (.join call tid)).alive_mapSampler_of_same tid
      (f := fun th => { th with shouldStop := true }.wakeUp) fun th => alive_wakeUp _
    refine inv.client rfl rfl rfl (fun t => by simp [same]) (by rw [here]; rfl) (by simp [here]) ?_
    intro off t old _
    rw [inv.livingTask_of_off off old] at living
    cases living
    exact .inr ⟨call, rfl⟩
  | stopFaults here gone =>
    refine inv.client rfl rfl rfl (fun _ => id) (by rw [here]; rfl) (by simp [here]) ?_
    intro off t old
    rw [inv.livingTask_of_off off old] at gone
    cases gone
  | @joins c _ call tid here finished =>
    refine inv.client rfl rfl rfl (fun _ => id) ?_ (by simp [here]) ?_
    · rw [here]
      cases call <;> rfl
    · intro _ t old covered
      simp only [here, ClientPc.Covers, ClientPc.cleared] at covered
      obtain cleared | ⟨_, same⟩ := covered
      · cases cleared
      · cases same
        rw [finished] at old
        cases old
  | @sampler tid th pc _ thread moved =>
    refine inv.mono rfl rfl rfl fun t living => ?_
    change (s.mapSampler tid _).alive t = true at living
    rw [alive_mapSampler] at living
    split at living
    · subst t
      simp [ControlState.alive, thread, (kthreadFunction_spec moved).1]
    · exact living

end Invariant

omit [DecidableEq κ] in
theorem SwitchInv.oneSampler {s : ControlState κ} (inv : s.SwitchInv) : s.OneSampler := by
  have outside : (∀ c, (s.clients c).Outside) → ∀ c, (s.clients c).creating = false := by
    intro others c
    have mine := others c
    cases here : s.clients c <;> simp_all [ClientPc.Outside, ClientPc.creating]
  constructor
  case unique =>
    intro t t' living living'
    by_cases busy : ∃ c, (s.clients c).creating = true
    · obtain ⟨c, mine⟩ := busy
      have stored := (inv.creating c mine).2 t living
      have stored' := (inv.creating c mine).2 t' living'
      rw [stored] at stored'
      cases stored'
      rfl
    · have none_creating : ∀ c, (s.clients c).creating = false := by simpa using busy
      have task := inv.named none_creating t living
      rw [inv.named none_creating t' living'] at task
      cases task
      rfl
  case named => exact fun others => inv.named (outside others)
  case off =>
    intro off others t
    by_contra living
    obtain ⟨c, covered⟩ := inv.covered off t (Bool.not_eq_false _ ▸ living)
    have mine := others c
    obtain cleared | ⟨call, waiting⟩ := covered
    · cases here : s.clients c <;> simp_all [ClientPc.Outside, ClientPc.cleared]
    · rw [waiting] at mine
      exact mine

/-- **At most one sampler, when the switches do not overlap.** For any number of clients, in every run
in which no write sets the flag while the sampler that an earlier write is to stop is still alive, and
none clears it while an earlier write has still to store the sampler it creates: at most one sampler is
alive at any time, outside the operations it is the one `kthread_task` names, and there is none when
the flag is clear. -/
theorem one_sampler_of_switchSafe {trace : List (ControlState κ × ControlAction κ)}
    {s : ControlState κ} (run : Run step (micstatInit κ) trace s)
    (safe : ∀ x ∈ trace, x.1.SwitchSafe x.2) : s.OneSampler :=
  (run.invariant SwitchSafe switchInv_micstatInit (fun _ _ _ inv safe taken => inv.step safe taken)
    safe).oneSampler

instance : Fintype CtrlCall := ⟨{.setOn, .setOff, .exit}, fun call => by cases call <;> decide⟩

instance [Fintype κ] (s : ControlState κ) (a : ControlAction κ) : Decidable (s.SwitchSafe a) :=
  match a with
  | .client c _ => inferInstanceAs (Decidable (∀ call, s.clients c = .switch call → s.on ≠ call.target →
      ∀ c', if call.target then s.stopping c' = false else (s.clients c').creating = false))
  | .storeCtrl _ _ | .exit _ | .sampler _ => isTrue trivial

/-! ### Two clients -/

/-- A client writes `on` and creates a thread. -/
def switchOn (c : κ) : List (ControlAction κ) :=
  .storeCtrl c "on".toList :: List.replicate 18 (.client c true)

/-- A client writes `off` and calls `kthread_stop`. -/
def switchOff (c : κ) : List (ControlAction κ) :=
  .storeCtrl c "off".toList :: List.replicate 4 (.client c true)

/-- One client switches on, the other off, and the first on again. -/
def offBetween : List (ControlAction (Fin 2)) :=
  switchOn 0 ++ List.replicate 5 (.sampler 0) ++ switchOff 1 ++ List.replicate 2 (.sampler 0) ++
    [.sampler 0, .client 1 true] ++ switchOn 0

/-- A run that meets the condition, with two samplers one after the other. -/
theorem one_sampler_off_between :
    ∃ trace s, Run step (micstatInit (Fin 2)) trace s ∧ s.OneSampler ∧ s.alive 0 = false ∧
      s.alive 1 = true := by
  have done : (exec (guarded (fun s a => decide (s.SwitchSafe a)) step) (micstatInit (Fin 2))
      offBetween).any fun s => !s.alive 0 && s.alive 1 := by decide +kernel
  obtain ⟨trace, s, run, _, passed⟩ := run_of_exec_any done
  simp only [Bool.and_eq_true, Bool.not_eq_true'] at passed
  obtain ⟨plain, safe⟩ := run.of_guarded
  exact ⟨trace, s, plain,
    one_sampler_of_switchSafe plain fun x member => of_decide_eq_true (safe x member), passed⟩

/-- The `off` has cleared the flag and not yet called `kthread_stop` when the second `on` begins. -/
def onDuringOff : List (ControlAction (Fin 2)) :=
  switchOn 0 ++ List.replicate 5 (.sampler 0) ++ (switchOff 1).take 4 ++ switchOn 0

/-- Two samplers are alive after an `on` that finds an `off` under way, though every thread creation
succeeds. -/
theorem two_samplers :
    ¬ ∀ (trace : List (ControlState (Fin 2) × ControlAction (Fin 2))) s,
      Run step (micstatInit (Fin 2)) trace s → (∀ x ∈ trace, x.2.succeeds = true) →
        s.OneSampler := by
  intro always
  have done : (exec step (micstatInit (Fin 2)) onDuringOff).any fun s => s.alive 0 && s.alive 1 := by
    decide +kernel
  obtain ⟨trace, s, run, same, passed⟩ := run_of_exec_any done
  rw [Bool.and_eq_true] at passed
  have created : ∀ a ∈ onDuringOff, a.succeeds = true := by decide
  have succeeds : ∀ x ∈ trace, x.2.succeeds = true :=
    fun x member => created _ (same ▸ List.mem_map_of_mem member)
  have sole := (always trace s run succeeds).unique 0 1 passed.1 passed.2
  cases sole

end ControlState

end Xstats.Haswellstat
