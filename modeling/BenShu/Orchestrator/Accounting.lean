import BenShu.Orchestrator.ResourceArbiter

/-!
# When the accounting is exact

The recorded total is the sum over the active allocations along a run exactly when no
granted request is of an agent that holds an allocation already, and no sum reaches the
limit of the integers.
-/

namespace BenShu.Orchestrator.ResourceArbiter

variable (s : ResourceArbiter)

def Exact : Prop := s.totalAllocatedVram.toNat = s.allocated

def releaseAll (agentIds : List String) : ResourceArbiter :=
  agentIds.foldl (fun s agentId => s.releaseAllocation agentId 0 0) s

/-- What the recorded total is good for. -/
structure Accounted : Prop where
  exact : s.Exact
  noUnderflow : ∀ agentId allocation, s.activeAllocations.lookup agentId = some allocation →
    allocation.1 ≤ s.totalAllocatedVram
  drained : (s.releaseAll s.activeAllocations.keys).totalAllocatedVram = 0

/-- A granted request without high priority stays within the maximum, where there is one. -/
def Capped : ArbiterCall → Prop
  | .request stats request =>
      ∀ vram ram, (s.requestAllocation stats request).1 = .granted vram ram →
        request.role ≠ .high → s.maxVramMb > 0 →
          (s.requestAllocation stats request).2.allocated ≤ s.maxVramMb.toNat
  | _ => True

/-- The agent of a granted request holds nothing before it, and the sums stay below `2 ^ 64`. -/
def Sound : ArbiterCall → Prop
  | .request stats request =>
      s.Admits stats request →
        s.held request.agentId = 0 ∧ s.allocated + request.vramMb.toNat < 2 ^ 64
  | .update agentId vramMb => s.allocated - s.held agentId + vramMb.toNat < 2 ^ 64
  | _ => True

variable {s}

/-! ## One call -/

theorem Exact.held_le (h : s.Exact) (agentId : String) :
    s.held agentId ≤ s.totalAllocatedVram.toNat := by
  rw [h]
  exact s.held_le_allocated agentId

theorem Exact.releaseAllocation (h : s.Exact) (agentId : String) (vramMb ramMb : UInt64) :
    (s.releaseAllocation agentId vramMb ramMb).Exact := by
  unfold Exact
  rw [s.toNat_releaseAllocation agentId vramMb ramMb (h.held_le agentId),
    s.allocated_releaseAllocation, h]

theorem Exact.updateAllocation_iff (h : s.Exact) (agentId : String) (vramMb : UInt64) :
    (s.updateAllocation agentId vramMb).Exact ↔
      s.allocated - s.held agentId + vramMb.toNat < 2 ^ 64 := by
  unfold Exact
  rw [s.toNat_updateAllocation agentId vramMb (h.held_le agentId),
    s.allocated_updateAllocation, h]
  omega

theorem Exact.grant_iff (h : s.Exact) (request : AllocationRequest) :
    (s.grant request).Exact ↔
      s.held request.agentId = 0 ∧ s.allocated + request.vramMb.toNat < 2 ^ 64 := by
  have htotal : (s.grant request).totalAllocatedVram.toNat =
      (s.allocated + request.vramMb.toNat) % 2 ^ 64 := by
    rw [← h]
    exact UInt64.toNat_add _ _
  have hheld := s.held_le_allocated request.agentId
  have hsmall := s.held_lt request.agentId
  have hvram := request.vramMb.toNat_lt
  have hallocated : s.allocated < 2 ^ 64 := by
    rw [← h]
    exact s.totalAllocatedVram.toNat_lt
  unfold Exact
  rw [htotal, s.allocated_grant request]
  omega

theorem Exact.perform_iff (h : s.Exact) (call : ArbiterCall) :
    (s.perform call).Exact ↔ s.Sound call := by
  cases call with
  | request stats request =>
      show (s.requestAllocation stats request).2.Exact ↔ (s.Admits stats request → _)
      by_cases hadmits : s.Admits stats request
      · rw [s.requestAllocation_of_admits hadmits]
        simpa only [hadmits, true_imp_iff] using h.grant_iff request
      · rw [(s.requestAllocation_of_not_admits hadmits).2]
        simp only [hadmits, false_imp_iff, iff_true]
        exact h
  | release agentId vramMb ramMb =>
      exact iff_of_true (h.releaseAllocation agentId vramMb ramMb) trivial
  | update agentId vramMb => exact h.updateAllocation_iff agentId vramMb
  | setVramLimit vramMb => exact iff_of_true h trivial
  | setQuota agentId quota => exact iff_of_true h trivial

theorem Exact.capped (h : s.Exact) {call : ArbiterCall} (hsound : s.Sound call) :
    s.Capped call := by
  cases call with
  | request stats request =>
      intro vram ram hgranted hrole hmax
      have hadmits : s.Admits stats request :=
        not_not.mp fun h => (s.requestAllocation_of_not_admits h).1 vram ram hgranted
      obtain ⟨hheld, hsum⟩ := hsound hadmits
      rw [s.requestAllocation_of_admits hadmits, s.allocated_grant request, hheld]
      rcases hadmits.2.2 with hhigh | hbelow
      · exact absurd hhigh hrole
      · have hle : s.totalAllocatedVram + request.vramMb ≤ s.maxVramMb := by
          by_contra hgt
          exact hbelow ⟨UInt64.not_le.mp hgt, hmax⟩
        rw [UInt64.le_iff_toNat_le, UInt64.toNat_add, h, Nat.mod_eq_of_lt hsum] at hle
        omega
  | release agentId vramMb ramMb => exact trivial
  | update agentId vramMb => exact trivial
  | setVramLimit vramMb => exact trivial
  | setQuota agentId quota => exact trivial

/-! ## All agents released -/

theorem Exact.releaseAll (h : s.Exact) (agentIds : List String) :
    (s.releaseAll agentIds).Exact := by
  induction agentIds generalizing s with
  | nil => exact h
  | cons agentId agentIds ih => exact ih (h.releaseAllocation agentId 0 0)

theorem lookup_releaseAllocation (agentId other : String) :
    (s.releaseAllocation agentId 0 0).activeAllocations.lookup other =
      if other = agentId then none else s.activeAllocations.lookup other := by
  unfold releaseAllocation
  cases hlookup : s.activeAllocations.lookup agentId with
  | some allocation => exact Table.lookup_erase _ _ _
  | none =>
      split_ifs with heq
      · rw [heq]
        exact hlookup
      · rfl

theorem lookup_releaseAll (agentIds : List String) (other : String) :
    (s.releaseAll agentIds).activeAllocations.lookup other =
      if other ∈ agentIds then none else s.activeAllocations.lookup other := by
  induction agentIds generalizing s with
  | nil => rfl
  | cons agentId agentIds ih =>
      show (((s.releaseAllocation agentId 0 0).releaseAll agentIds).activeAllocations).lookup
        other = _
      rw [ih, lookup_releaseAllocation]
      by_cases heq : other = agentId <;> simp [heq]

theorem allocated_of_lookup_none (h : ∀ agentId, s.activeAllocations.lookup agentId = none) :
    s.allocated = 0 := by
  have hentries : s.activeAllocations.entries = [] := by
    apply List.eq_nil_iff_forall_not_mem.mpr
    intro entry hmem
    have hsome := Table.mem_entries_iff.mp hmem
    rw [h] at hsome
    cases hsome
  simp [allocated, Table.total, hentries]

theorem Exact.accounted (h : s.Exact) : s.Accounted where
  exact := h
  noUnderflow := by
    intro agentId allocation hlookup
    have hheld := h.held_le agentId
    simp only [held, hlookup, Option.map_some, Option.getD_some] at hheld
    exact UInt64.le_iff_toNat_le.mpr hheld
  drained := by
    have hnone : ∀ agentId, (s.releaseAll s.activeAllocations.keys).activeAllocations.lookup
        agentId = none := by
      intro agentId
      rw [lookup_releaseAll]
      split_ifs with hmem
      · rfl
      · exact AList.lookup_eq_none.mpr hmem
    apply UInt64.toNat_inj.mp
    rw [h.releaseAll s.activeAllocations.keys, allocated_of_lookup_none hnone]
    rfl

/-! ## Runs -/

/-- The accounting of a new arbiter is exact after all prefixes of a run, and none of its
calls goes over the maximum, exactly when all its calls are made in sound states. -/
theorem accounting_exact_iff (maxVramMb : UInt64) (calls : List ArbiterCall) :
    ((∀ pre, pre <+: calls → (run { maxVramMb } pre).Accounted) ∧
        History.Preceded (fun pre call => (run { maxVramMb } pre).Capped call) calls) ↔
      History.Preceded (fun pre call => (run { maxVramMb } pre).Sound call) calls := by
  have hthroughout : (∀ pre, pre <+: calls → (run { maxVramMb } pre).Exact) ↔
      History.Preceded (fun pre call => (run { maxVramMb } pre).Sound call) calls :=
    @History.foldl_throughout_iff _ calls _ perform { maxVramMb } (fun _ => True) Exact Sound
      trivial rfl fun call _ _ _ => ⟨trivial, fun h => h.perform_iff call⟩
  rw [← hthroughout]
  constructor
  · rintro ⟨haccounted, -⟩ pre hpre
    exact (haccounted pre hpre).exact
  · intro hexact
    refine ⟨fun pre hpre => (hexact pre hpre).accounted, ?_⟩
    intro pre call post heq
    exact (hexact pre ⟨_, heq.symm⟩).capped (hthroughout.mp hexact pre call post heq)

/-- An agent that asks twice is counted twice and released once. -/
theorem repeatedRequest_overcounted :
    ¬∀ (maxVramMb : UInt64) (calls : List ArbiterCall),
      (∀ pre, pre <+: calls → (run { maxVramMb } pre).Accounted) ∧
        History.Preceded (fun pre call => (run { maxVramMb } pre).Capped call) calls := by
  intro h
  have haccounted := (h 8192 [.request none ⟨"agent", .medium, 2048, 0⟩,
    .request none ⟨"agent", .medium, 2048, 0⟩, .release "agent" 2048 0]).1 _ List.prefix_rfl
  exact absurd haccounted.drained (by decide +kernel)

end BenShu.Orchestrator.ResourceArbiter
