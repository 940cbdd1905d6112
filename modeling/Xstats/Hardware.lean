/-
**The hardware's event totals.**

A machine in which nothing is multiplexed: of each counter and CPU it says how many events there were up
to an instant. The kernel's event, once created, shows how many there were since, and for how long it
has existed. Instants are those of the monotonic clock, in nanoseconds.

* `Hardware.scaled_read`: what `perf_restart` adds for an event is the number of events since the last
  reading.
* `Hardware.between_eq_iff`: counting from a later instant than that of a window's start gives the
  events of the window exactly if there were none in between.
-/

import Xstats.Perf

namespace Xstats

/-- The events of each counter on each CPU up to an instant. What the CPUs of a machine count together
fits into 64 bits. -/
structure Hardware (κ : Type) (nrCpuIds : Nat) where
  total : κ → Fin nrCpuIds → BitVec 64 → Nat
  mono : ∀ k cpu {t t' : BitVec 64}, t ≤ t' → total k cpu t ≤ total k cpu t'
  fits : ∀ k t, ∑ cpu, total k cpu t < 2 ^ 64

namespace Hardware

variable {κ : Type} {nrCpuIds : Nat} (hw : Hardware κ nrCpuIds) {k : κ} {cpu : Fin nrCpuIds}

/-- The events of a counter on a CPU from one instant to another. -/
def between (k : κ) (cpu : Fin nrCpuIds) (t t' : BitVec 64) : Nat := hw.total k cpu t' - hw.total k cpu t

/-- `perf_event_read_value` at an instant, of an event created at `born`. -/
def read (k : κ) (cpu : Fin nrCpuIds) (born t : BitVec 64) : PerfEventValue :=
  ⟨BitVec.ofNat 64 (hw.between k cpu born t), t - born, t - born⟩

theorem total_lt (k : κ) (cpu : Fin nrCpuIds) (t : BitVec 64) : hw.total k cpu t < 2 ^ 64 :=
  (Finset.single_le_sum (f := fun cpu => hw.total k cpu t) (fun _ _ => Nat.zero_le _)
    (Finset.mem_univ cpu)).trans_lt (hw.fits k t)

theorem between_lt (k : κ) (cpu : Fin nrCpuIds) (t t' : BitVec 64) : hw.between k cpu t t' < 2 ^ 64 :=
  (Nat.sub_le _ _).trans_lt (hw.total_lt k cpu t')

theorem between_self (k : κ) (cpu : Fin nrCpuIds) (t : BitVec 64) : hw.between k cpu t t = 0 :=
  Nat.sub_self _

theorem toNat_total_read (born t : BitVec 64) :
    (hw.read k cpu born t).total.toNat = hw.between k cpu born t := by
  rw [read, BitVec.toNat_ofNat]
  exact Nat.mod_eq_of_lt (hw.between_lt k cpu born t)

/-- A new event shows what the cleared entry holds. -/
theorem read_self (born : BitVec 64) : hw.read k cpu born born = .zero := by
  rw [read, between_self, BitVec.sub_self]
  rfl

section Readings

variable {born last t : BitVec 64}

theorem between_add (k : κ) (cpu : Fin nrCpuIds) (created : born ≤ last) (later : last ≤ t) :
    hw.between k cpu born last + hw.between k cpu last t = hw.between k cpu born t := by
  have first := hw.mono k cpu created
  have second := hw.mono k cpu later
  unfold between
  omega

/-- What an event counted since the last reading. -/
theorem total_sub_read (k : κ) (cpu : Fin nrCpuIds) (created : born ≤ last) (later : last ≤ t) :
    ((hw.read k cpu born t).total - (hw.read k cpu born last).total).toNat =
      hw.between k cpu last t := by
  have sum := hw.between_add k cpu created later
  rw [BitVec.toNat_sub_of_le, toNat_total_read, toNat_total_read]
  · omega
  · rw [BitVec.le_def, toNat_total_read, toNat_total_read]
    omega

/-- **Two readings of an event**: `perf_restart` adds the events between them. -/
theorem scaled_read (ρ : Rounding) (created : born ≤ last) (later : last ≤ t)
    (small : hw.between k cpu last t ≤ PerfEventValue.perfOverflowThreshold) :
    PerfEventValue.scaled ρ (hw.read k cpu born last) (hw.read k cpu born t) =
      BitVec.ofNat 64 (hw.between k cpu last t) := by
  have counted := hw.total_sub_read k cpu created later
  have sum := hw.between_add k cpu created later
  have steady : PerfEventValue.Steady (hw.read k cpu born last) (hw.read k cpu born t) := by
    constructor
    case total_le =>
      rw [BitVec.le_def, toNat_total_read, toNat_total_read]
      omega
    case running_le =>
      show last - born ≤ t - born
      rw [BitVec.le_def, BitVec.toNat_sub_of_le created,
        BitVec.toNat_sub_of_le (BitVec.le_trans created later)]
      exact Nat.sub_le_sub_right later _
    case enabled_eq => exact ⟨rfl, rfl⟩
    case idle =>
      intro same
      have instants : t = last := by
        have shifted : t - born + born = last - born + born := congrArg (· + born) same
        rwa [BitVec.sub_add_cancel, BitVec.sub_add_cancel] at shifted
      rw [instants]
    case small => exact counted ▸ small
  rw [PerfEventValue.scaled_of_steady ρ steady, ← counted, BitVec.ofNat_toNat, BitVec.setWidth_eq]

end Readings

/-! ### Windows -/

/-- Counting from a later instant than a window starts at gives its events exactly if there were none in
between. -/
theorem between_eq_iff {start base t : BitVec 64} (earlier : start ≤ base) (later : base ≤ t) :
    hw.between k cpu base t = hw.between k cpu start t ↔ hw.between k cpu start base = 0 := by
  have sum := hw.between_add k cpu earlier later
  omega

/-- What the CPUs count until instants of which one is the last. -/
theorem sum_between_lt (k : κ) (cpus : Finset (Fin nrCpuIds)) (start : Fin nrCpuIds → BitVec 64)
    {t : Fin nrCpuIds → BitVec 64} {last : BitVec 64} (until_last : ∀ cpu, t cpu ≤ last) :
    ∑ cpu ∈ cpus, hw.between k cpu (start cpu) (t cpu) < 2 ^ 64 :=
  calc ∑ cpu ∈ cpus, hw.between k cpu (start cpu) (t cpu)
      ≤ ∑ cpu ∈ cpus, hw.total k cpu last :=
        Finset.sum_le_sum fun cpu _ => (Nat.sub_le _ _).trans (hw.mono k cpu (until_last cpu))
    _ ≤ ∑ cpu, hw.total k cpu last := Finset.sum_le_univ_sum_of_nonneg fun _ => Nat.zero_le _
    _ < 2 ^ 64 := hw.fits k last

/-- One CPU, on which each counter counts five events at the instant two. -/
def fiveAtTwo (κ : Type) : Hardware κ 1 where
  total := fun _ _ t => if t < 2 then 0 else 5
  mono := fun _ _ t t' le => by
    split <;> split
    · exact le_rfl
    · exact Nat.zero_le _
    · next late early =>
      exact absurd (BitVec.le_trans (BitVec.not_lt.mp late) le) (BitVec.not_le.mpr early)
    · exact le_rfl
  fits := fun _ t => by
    rw [Finset.sum_const]
    split <;> decide

end Hardware

/-- A sum of words that do not wrap. -/
theorem toNat_sum_ofNat {α : Type} (l : List α) (f : α → Nat) (small : (l.map f).sum < 2 ^ 64) :
    (l.map fun x => BitVec.ofNat 64 (f x)).sum.toNat = (l.map f).sum := by
  induction l with
  | nil => rfl
  | cons x rest ih =>
    simp only [List.map_cons, List.sum_cons] at small ⊢
    have step := ih (by omega)
    rw [BitVec.toNat_add, step, BitVec.toNat_ofNat]
    omega

end Xstats
