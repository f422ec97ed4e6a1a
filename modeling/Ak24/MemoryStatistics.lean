import Ak24.Monitors

namespace Ak24.MemoryStatistics

open Monitors Transition

variable {ι : Type}

abbrev Size := BitVec 64

structure MemoryStats where
  totalAllocations : Size
  totalFrees : Size
  totalReallocs : Size
  bytesAllocated : Size
  bytesFreed : Size
  currentBytes : Size
  peakBytes : Size
  deriving DecidableEq, Repr

inductive TrackedOp
  | alloc (size : Size)
  | realloc (size : Size)
  | free
  | getStats
  deriving DecidableEq, Repr

inductive TrackedResult
  | done
  | stats (memStats : MemoryStats)
  deriving DecidableEq, Repr

inductive TrackedLocals
  | countAllocation (size : Size)
  | countRealloc (size : Size)
  | countFree
  | addAllocated (size : Size)
  | addCurrent (size : Size)
  | raisePeak
  | copyStats
  | unlocking (r : TrackedResult)
  deriving DecidableEq, Repr

def enter : TrackedOp → TrackedLocals
  | .alloc size => .countAllocation size
  | .realloc size => .countRealloc size
  | .free => .countFree
  | .getStats => .copyStats

def step (memStats : MemoryStats) : TrackedLocals → (MemoryStats × TrackedLocals) ⊕ TrackedResult
  | .countAllocation size =>
    .inl ({ memStats with totalAllocations := memStats.totalAllocations + 1 }, .addAllocated size)
  | .countRealloc size => .inl ({ memStats with totalReallocs := memStats.totalReallocs + 1 }, .addAllocated size)
  | .countFree => .inl ({ memStats with totalFrees := memStats.totalFrees + 1 }, .unlocking .done)
  | .addAllocated size => .inl ({ memStats with bytesAllocated := memStats.bytesAllocated + size }, .addCurrent size)
  | .addCurrent size => .inl ({ memStats with currentBytes := memStats.currentBytes + size }, .raisePeak)
  | .raisePeak =>
    .inl (if memStats.peakBytes < memStats.currentBytes then { memStats with peakBytes := memStats.currentBytes }
      else memStats, .unlocking .done)
  | .copyStats => .inl (memStats, .unlocking (.stats memStats))
  | .unlocking r => .inr r

def memTracked : Monitor MemoryStats TrackedOp TrackedLocals TrackedResult := ⟨enter, step⟩

abbrev Tracked (ι : Type) := System ι MemoryStats TrackedOp TrackedLocals TrackedResult

def TrackedOp.size : TrackedOp → Nat
  | .alloc size => size.toNat
  | .realloc size => size.toNat
  | _ => 0

def TrackedOp.isAlloc : TrackedOp → Bool
  | .alloc _ => true
  | _ => false

def TrackedOp.isRealloc : TrackedOp → Bool
  | .realloc _ => true
  | _ => false

def TrackedOp.isFree : TrackedOp → Bool
  | .free => true
  | _ => false

def requested (ops : List TrackedOp) : Nat := (ops.map TrackedOp.size).sum

/-- The statistics after some calls: every counter counts its calls, the bytes
are those asked for, and none are ever counted as freed. -/
structure Counts (ops : List TrackedOp) (memStats : MemoryStats) : Prop where
  allocations : memStats.totalAllocations = BitVec.ofNat 64 (ops.countP TrackedOp.isAlloc)
  frees : memStats.totalFrees = BitVec.ofNat 64 (ops.countP TrackedOp.isFree)
  reallocs : memStats.totalReallocs = BitVec.ofNat 64 (ops.countP TrackedOp.isRealloc)
  allocated : memStats.bytesAllocated = BitVec.ofNat 64 (requested ops)
  freed : memStats.bytesFreed = 0
  current : memStats.currentBytes = memStats.bytesAllocated
  peak : requested ops < 2 ^ 64 → memStats.peakBytes = memStats.currentBytes

theorem Counts.perm {ops ops' : List TrackedOp} {memStats : MemoryStats} (h : Counts ops memStats)
    (hperm : ops.Perm ops') : Counts ops' memStats := by
  have hrequested : requested ops = requested ops' := (hperm.map TrackedOp.size).sum_eq
  obtain ⟨hallocations, hfrees, hreallocs, hallocated, hfreed, hcurrent, hpeak⟩ := h
  rw [hperm.countP_eq] at hallocations hfrees hreallocs
  rw [hrequested] at hallocated hpeak
  exact ⟨hallocations, hfrees, hreallocs, hallocated, hfreed, hcurrent, hpeak⟩

def added (size : Size) (memStats : MemoryStats) : MemoryStats :=
  { memStats with
    bytesAllocated := memStats.bytesAllocated + size
    currentBytes := memStats.currentBytes + size
    peakBytes :=
      if memStats.peakBytes < memStats.currentBytes + size then memStats.currentBytes + size else memStats.peakBytes }

theorem finishes_addAllocated {size : Size} {s s' : MemoryStats} {r : TrackedResult}
    (h : memTracked.Finishes (s, .addAllocated size) r s') : r = .done ∧ s' = added size s := by
  obtain ⟨rfl, hs'⟩ := Monitor.Finishes.inr rfl (Monitor.Finishes.inl rfl (Monitor.Finishes.inl rfl
    (Monitor.Finishes.inl rfl h)))
  refine ⟨rfl, hs'.trans ?_⟩
  rw [added]
  simp only
  split_ifs <;> rfl

section Sequential

variable {s₀ s s' : MemoryStats} {op : TrackedOp} {ops : List TrackedOp} {r : TrackedResult}
  {log : List (ι × TrackedOp × TrackedResult)}

theorem requested_append (ops : List TrackedOp) (op : TrackedOp) : requested (ops ++ [op]) = requested ops + op.size := by
  rw [requested, List.map_append, List.sum_append, List.map_singleton, List.sum_singleton]
  rfl

theorem ofNat_add_toNat (n : Nat) (size : Size) : BitVec.ofNat 64 n + size = BitVec.ofNat 64 (n + size.toNat) := by
  rw [BitVec.ofNat_add, BitVec.ofNat_toNat, BitVec.setWidth_eq]

theorem added_peak (hcurrent : s.currentBytes = BitVec.ofNat 64 (requested ops))
    (hpeak : requested ops < 2 ^ 64 → s.peakBytes = s.currentBytes) {size : Size}
    (hsum : requested ops + size.toNat < 2 ^ 64) : (added size s).peakBytes = (added size s).currentBytes := by
  have hsmall : requested ops < 2 ^ 64 := by omega
  have hnat : s.currentBytes.toNat = requested ops := by
    rw [hcurrent, BitVec.toNat_ofNat, Nat.mod_eq_of_lt hsmall]
  simp only [added, hpeak hsmall]
  split_ifs with hlt
  · rfl
  · rw [BitVec.not_lt, BitVec.le_def, BitVec.toNat_add_of_lt (by omega)] at hlt
    exact BitVec.eq_of_toNat_eq (by rw [BitVec.toNat_add_of_lt (by omega)]; omega)

theorem Counts.asked (h : Counts ops s) (size : Size) (allocations reallocs : Size) (hop : op.size = size.toNat)
    (hallocations : allocations = BitVec.ofNat 64 ((ops ++ [op]).countP TrackedOp.isAlloc))
    (hreallocs : reallocs = BitVec.ofNat 64 ((ops ++ [op]).countP TrackedOp.isRealloc)) (hfree : op.isFree = false) :
    Counts (ops ++ [op]) (added size { s with totalAllocations := allocations, totalReallocs := reallocs }) where
  allocations := hallocations
  frees := by
    rw [List.countP_append, List.countP_singleton, hfree]
    exact h.frees
  reallocs := hreallocs
  allocated := by
    show s.bytesAllocated + size = _
    rw [h.allocated, requested_append, hop, ofNat_add_toNat]
  freed := h.freed
  current := by
    show s.currentBytes + size = s.bytesAllocated + size
    rw [h.current]
  peak := by
    intro hsum
    rw [requested_append, hop] at hsum
    exact added_peak (s := { s with totalAllocations := allocations, totalReallocs := reallocs })
      (h.current.trans h.allocated) h.peak hsum

theorem Counts.does (h : Counts ops s) (hdoes : memTracked.Does op s r s') :
    Counts (ops ++ [op]) s' ∧ ∀ memStats, r = .stats memStats → memStats = s := by
  cases op with
  | alloc size =>
      obtain ⟨rfl, rfl⟩ := finishes_addAllocated (Monitor.Finishes.inl rfl hdoes)
      refine ⟨h.asked size _ s.totalReallocs rfl ?_ ?_ rfl, nofun⟩
      · rw [List.countP_append, h.allocations, BitVec.ofNat_add]
        rfl
      · rw [List.countP_append, h.reallocs]
        rfl
  | realloc size =>
      obtain ⟨rfl, rfl⟩ := finishes_addAllocated (Monitor.Finishes.inl rfl hdoes)
      refine ⟨h.asked size s.totalAllocations _ rfl ?_ ?_ rfl, nofun⟩
      · rw [List.countP_append, h.allocations]
        rfl
      · rw [List.countP_append, h.reallocs, BitVec.ofNat_add]
        rfl
  | free =>
      obtain ⟨rfl, rfl⟩ := Monitor.Finishes.inr rfl (Monitor.Finishes.inl rfl hdoes)
      refine ⟨⟨?_, ?_, ?_, ?_, h.freed, h.current, ?_⟩, nofun⟩
      · rw [List.countP_append]
        exact h.allocations
      · rw [List.countP_append, h.frees, BitVec.ofNat_add]
        rfl
      · rw [List.countP_append]
        exact h.reallocs
      · rw [requested_append]
        exact h.allocated
      · rw [requested_append]
        exact h.peak
  | getStats =>
      obtain ⟨rfl, rfl⟩ := Monitor.Finishes.inr rfl (Monitor.Finishes.inl rfl hdoes)
      refine ⟨⟨?_, ?_, ?_, ?_, h.freed, h.current, ?_⟩, ?_⟩
      · rw [List.countP_append]
        exact h.allocations
      · rw [List.countP_append]
        exact h.frees
      · rw [List.countP_append]
        exact h.reallocs
      · rw [requested_append]
        exact h.allocated
      · rw [requested_append]
        exact h.peak
      · rintro _ ⟨⟩
        rfl

def zeroed : MemoryStats := ⟨0, 0, 0, 0, 0, 0, 0⟩

theorem counts_zeroed : Counts [] zeroed := ⟨rfl, rfl, rfl, rfl, rfl, rfl, fun _ => rfl⟩

/-- What the statistics are after a log, and what each copy of them shows: the
calls before it. -/
theorem history_counts (h : History memTracked.Does zeroed log s) :
    Counts (log.map fun e => e.2.1) s ∧
      ∀ i op memStats, (i, op, .stats memStats) ∈ log →
        ∃ ops, ops.Sublist (log.map fun e => e.2.1) ∧ Counts ops memStats := by
  induction h with
  | nil => exact ⟨counts_zeroed, nofun⟩
  | @snoc log s s' op r i _ hdoes ih =>
      obtain ⟨hcounts, hcopies⟩ := ih
      obtain ⟨hnext, hcopy⟩ := hcounts.does hdoes
      rw [List.map_append]
      refine ⟨hnext, fun j op' memStats hmem => ?_⟩
      rcases List.mem_append.mp hmem with hold | hnew
      · obtain ⟨ops, hsub, hops⟩ := hcopies j op' memStats hold
        exact ⟨ops, hsub.trans (List.sublist_append_left _ _), hops⟩
      · cases List.mem_singleton.mp hnew
        rw [hcopy memStats rfl]
        exact ⟨_, List.sublist_append_left _ _, hcounts⟩

end Sequential

section Runs

variable [DecidableEq ι] {tracked : Tracked ι} {trace : List (Event ι TrackedOp TrackedResult)}

def calledOps (trace : List (Event ι TrackedOp TrackedResult)) : List TrackedOp :=
  (trace.filterMap called).map Prod.snd

end Runs

end Ak24.MemoryStatistics
