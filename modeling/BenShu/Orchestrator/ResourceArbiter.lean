import BenShu.Lib.History
import BenShu.Lib.Table
import Mathlib.Data.Rat.Defs

/-!
# The resource arbiter

The total of the granted video memory is kept beside the table of the active
allocations, and every call changes both while it holds the lock of the table.
-/

namespace BenShu.Orchestrator

inductive ThrottleLevel where
  | high
  | medium
  | low
deriving DecidableEq

structure AcceleratorInfo where
  vramPressurePct : ℚ

structure HostResources where
  accelerators : List AcceleratorInfo

def HostResources.vramPressurePct (stats : HostResources) : ℚ :=
  match stats.accelerators.map AcceleratorInfo.vramPressurePct with
  | [] => 0
  | first :: rest =>
      rest.foldl (fun most pressure => if most < pressure then pressure else most) first

structure AgentQuota where
  maxVramMb : UInt64

structure AllocationRequest where
  agentId : String
  role : ThrottleLevel
  vramMb : UInt64
  ramMb : UInt64

inductive AllocationResponse where
  | granted (allocatedVram allocatedRam : UInt64)
  | throttled (waitMs : UInt64) (suggested : UInt64 × UInt64)
  | denied (reason : String)
deriving DecidableEq

structure ResourceArbiter where
  quotas : Table String AgentQuota := ∅
  activeAllocations : Table String (UInt64 × UInt64) := ∅
  totalAllocatedVram : UInt64 := 0
  maxVramMb : UInt64

namespace ResourceArbiter

variable (s : ResourceArbiter)

def exceededQuota (request : AllocationRequest) : Option AgentQuota :=
  (s.quotas.lookup request.agentId).filter fun quota =>
    decide (request.vramMb > quota.maxVramMb ∧ request.role ≠ .high)

/-- What the total leaves no space for. The sum wraps around. -/
def OverLimit (request : AllocationRequest) : Prop :=
  s.totalAllocatedVram + request.vramMb > s.maxVramMb ∧ s.maxVramMb > 0

instance (request : AllocationRequest) : Decidable (s.OverLimit request) :=
  inferInstanceAs (Decidable (_ ∧ _))

/-- The sizes are added for the request, also where the agent holds an allocation already. -/
def grant (request : AllocationRequest) : ResourceArbiter :=
  { s with
    totalAllocatedVram := s.totalAllocatedVram + request.vramMb
    activeAllocations :=
      s.activeAllocations.insert request.agentId (request.vramMb, request.ramMb) }

/-- The sensor, where there is one, is read at each request. -/
def requestAllocation (stats : Option HostResources) (request : AllocationRequest) :
    AllocationResponse × ResourceArbiter :=
  if stats.any fun stats => decide (stats.vramPressurePct > 95) then
    (.denied "Physical VRAM HardCap reached (95%+) - System Safety Triggered", s)
  else
    match s.exceededQuota request with
    | some quota =>
        let (requested, limit) := (request.vramMb, quota.maxVramMb)
        (.denied s!"Requested VRAM {requested}MB exceeds quota {limit}MB", s)
    | none =>
        if request.role = .high then (.granted request.vramMb request.ramMb, s.grant request)
        else if s.OverLimit request then
          (.throttled 1000 (request.vramMb / 2, request.ramMb), s)
        else (.granted request.vramMb request.ramMb, s.grant request)

/-- The sizes the caller gives back are not looked at. -/
def releaseAllocation (agentId : String) (_vramMb _ramMb : UInt64) : ResourceArbiter :=
  match s.activeAllocations.lookup agentId with
  | some (oldVram, _) =>
      { s with
        activeAllocations := s.activeAllocations.erase agentId
        totalAllocatedVram := s.totalAllocatedVram - oldVram }
  | none => s

def updateAllocation (agentId : String) (newVram : UInt64) : ResourceArbiter :=
  match s.activeAllocations.lookup agentId with
  | some (oldVram, ram) =>
      { s with
        totalAllocatedVram := s.totalAllocatedVram - oldVram + newVram
        activeAllocations := s.activeAllocations.insert agentId (newVram, ram) }
  | none =>
      { s with
        totalAllocatedVram := s.totalAllocatedVram + newVram
        activeAllocations := s.activeAllocations.insert agentId (newVram, 0) }

def setVramLimit (vramMb : UInt64) : ResourceArbiter := { s with maxVramMb := vramMb }

def setQuota (agentId : String) (quota : AgentQuota) : ResourceArbiter :=
  { s with quotas := s.quotas.insert agentId quota }

end ResourceArbiter

inductive ArbiterCall where
  | request (stats : Option HostResources) (request : AllocationRequest)
  | release (agentId : String) (vramMb ramMb : UInt64)
  | update (agentId : String) (vramMb : UInt64)
  | setVramLimit (vramMb : UInt64)
  | setQuota (agentId : String) (quota : AgentQuota)

namespace ResourceArbiter

def perform (s : ResourceArbiter) : ArbiterCall → ResourceArbiter
  | .request stats request => (s.requestAllocation stats request).2
  | .release agentId vramMb ramMb => s.releaseAllocation agentId vramMb ramMb
  | .update agentId vramMb => s.updateAllocation agentId vramMb
  | .setVramLimit vramMb => s.setVramLimit vramMb
  | .setQuota agentId quota => s.setQuota agentId quota

def run (s : ResourceArbiter) (calls : List ArbiterCall) : ResourceArbiter :=
  calls.foldl perform s

variable (s : ResourceArbiter)

/-! ## What is allocated -/

def allocated : Nat :=
  Table.total (fun allocation => allocation.1.toNat) s.activeAllocations

def held (agentId : String) : Nat :=
  ((s.activeAllocations.lookup agentId).map fun allocation => allocation.1.toNat).getD 0

theorem held_le_allocated (agentId : String) : s.held agentId ≤ s.allocated := by
  have herase := Table.total_erase (fun allocation : UInt64 × UInt64 => allocation.1.toNat)
    s.activeAllocations agentId
  unfold held allocated
  omega

theorem held_lt (agentId : String) : s.held agentId < 2 ^ 64 := by
  unfold held
  cases s.activeAllocations.lookup agentId with
  | none => exact Nat.two_pow_pos 64
  | some allocation => exact allocation.1.toNat_lt

theorem total_insert_eq (agentId : String) (allocation : UInt64 × UInt64) :
    Table.total (fun allocation => allocation.1.toNat)
        (s.activeAllocations.insert agentId allocation) =
      s.allocated - s.held agentId + allocation.1.toNat := by
  have herase := Table.total_erase (fun allocation : UInt64 × UInt64 => allocation.1.toNat)
    s.activeAllocations agentId
  rw [Table.total_insert]
  unfold held allocated
  omega

theorem total_erase_eq (agentId : String) :
    Table.total (fun allocation => allocation.1.toNat) (s.activeAllocations.erase agentId) =
      s.allocated - s.held agentId := by
  have herase := Table.total_erase (fun allocation : UInt64 × UInt64 => allocation.1.toNat)
    s.activeAllocations agentId
  unfold held allocated
  omega

/-! ## What one call does -/

def Admits (stats : Option HostResources) (request : AllocationRequest) : Prop :=
  (stats.any fun stats => decide (stats.vramPressurePct > 95)) = false ∧
    s.exceededQuota request = none ∧ (request.role = .high ∨ ¬s.OverLimit request)

theorem requestAllocation_of_admits {stats : Option HostResources} {request : AllocationRequest}
    (h : s.Admits stats request) :
    s.requestAllocation stats request =
      (.granted request.vramMb request.ramMb, s.grant request) := by
  rcases h with ⟨hpressure, hquota, hlimit⟩
  unfold requestAllocation
  rw [if_neg (by simp [hpressure]), hquota]
  rcases hlimit with hhigh | hbelow
  · rw [if_pos hhigh]
  · rw [if_neg hbelow, ite_self]

theorem requestAllocation_of_not_admits {stats : Option HostResources}
    {request : AllocationRequest} (h : ¬s.Admits stats request) :
    (∀ vram ram, (s.requestAllocation stats request).1 ≠ .granted vram ram) ∧
      (s.requestAllocation stats request).2 = s := by
  unfold requestAllocation
  cases hpressure : stats.any fun stats => decide (stats.vramPressurePct > 95) with
  | true => simp
  | false =>
      rw [if_neg Bool.false_ne_true]
      cases hquota : s.exceededQuota request with
      | some quota => simp
      | none =>
          have hhigh : request.role ≠ .high := fun hhigh => h ⟨hpressure, hquota, .inl hhigh⟩
          have hlimit : s.OverLimit request :=
            not_not.mp fun hlimit => h ⟨hpressure, hquota, .inr hlimit⟩
          simp [hhigh, hlimit]

theorem allocated_grant (request : AllocationRequest) :
    (s.grant request).allocated =
      s.allocated - s.held request.agentId + request.vramMb.toNat :=
  s.total_insert_eq request.agentId _

theorem allocated_releaseAllocation (agentId : String) (vramMb ramMb : UInt64) :
    (s.releaseAllocation agentId vramMb ramMb).allocated = s.allocated - s.held agentId := by
  unfold releaseAllocation
  cases hlookup : s.activeAllocations.lookup agentId with
  | none => simp [held, hlookup]
  | some allocation => exact s.total_erase_eq agentId

theorem toNat_releaseAllocation (agentId : String) (vramMb ramMb : UInt64)
    (hle : s.held agentId ≤ s.totalAllocatedVram.toNat) :
    (s.releaseAllocation agentId vramMb ramMb).totalAllocatedVram.toNat =
      s.totalAllocatedVram.toNat - s.held agentId := by
  unfold releaseAllocation
  cases hlookup : s.activeAllocations.lookup agentId with
  | none => simp [held, hlookup]
  | some allocation =>
      have hheld : s.held agentId = allocation.1.toNat := by simp [held, hlookup]
      rw [hheld] at hle ⊢
      exact UInt64.toNat_sub_of_le _ _ (UInt64.le_iff_toNat_le.mpr hle)

theorem allocated_updateAllocation (agentId : String) (newVram : UInt64) :
    (s.updateAllocation agentId newVram).allocated =
      s.allocated - s.held agentId + newVram.toNat := by
  unfold updateAllocation
  cases s.activeAllocations.lookup agentId <;> exact s.total_insert_eq agentId _

theorem toNat_updateAllocation (agentId : String) (newVram : UInt64)
    (hle : s.held agentId ≤ s.totalAllocatedVram.toNat) :
    (s.updateAllocation agentId newVram).totalAllocatedVram.toNat =
      (s.totalAllocatedVram.toNat - s.held agentId + newVram.toNat) % 2 ^ 64 := by
  unfold updateAllocation
  cases hlookup : s.activeAllocations.lookup agentId with
  | none =>
      show (s.totalAllocatedVram + newVram).toNat = _
      simp [held, hlookup, UInt64.toNat_add]
  | some allocation =>
      have hheld : s.held agentId = allocation.1.toNat := by simp [held, hlookup]
      rw [hheld] at hle ⊢
      show (s.totalAllocatedVram - allocation.1 + newVram).toNat = _
      rw [UInt64.toNat_add, UInt64.toNat_sub_of_le _ _ (UInt64.le_iff_toNat_le.mpr hle)]

end ResourceArbiter

end BenShu.Orchestrator
