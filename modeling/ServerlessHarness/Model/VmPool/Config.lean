import Mathlib.Algebra.Ring.Int.Defs
import Mathlib.Algebra.Ring.Nat
import Mathlib.Data.Int.Init

/-!
# The VM pool's configuration

`Config` is the pool's whole configuration surface and `normalize` fills its defaults
and then validates, returning the first violation. Durations are nanosecond counts;
byte counts are Go's `int64`, so the two sums and the product that admission control
computes from them wrap (`wrap64`).
-/

set_option autoImplicit false

namespace ServerlessHarness.VmPool

/-- The value an `int64` expression has when its exact value is `z`: two's complement
wrap-around. -/
def wrap64 (z : Int) : Int := z.bmod (2 ^ 64)

/-- The hypervisor names, and any other string the field can hold.
SRCLINE: config.go:17-30 -/
inductive VMMKind where
  | cloudHypervisor
  | firecracker
  | fakeVMM
  | other (name : String)
deriving DecidableEq, Repr

/-- SRCLINE: config.go:50-75 -/
structure Config where
  vmm : VMMKind
  snapshotDir : String
  workspaceRoot : String
  standbyDepth : Int
  deferReapWorkers : Int
  guestRAMBytes : Int
  maxRuns : Int
  maxCommittedBytes : Int
  memoryReserveBytes : Int
  vmOverheadBytes : Int
  standbyIdle : Int
  workspaceIdle : Int
  replenishDelay : Int
  reclaimScanInterval : Int
  maxReclaimsPerScan : Int
deriving DecidableEq, Repr

/-- One second, in the unit of every duration. -/
def second : Int := 1000000000

def defaultStandbyDepth : Int := 2
def defaultGuestRAMBytes : Int := 256 * 2 ^ 20
def defaultStandbyIdle : Int := 90 * second
def defaultWorkspaceIdle : Int := 30 * 60 * second
def defaultReplenishDelay : Int := 200 * 1000000
def defaultMaxReclaimsPerScan : Int := 8
def defaultVMOverheadBytes : Int := 32 * 2 ^ 20

/-- The rule a rejected configuration breaks, with the values its message prints.
SRCLINE: config.go:111-143 -/
inductive ConfigError where
  | unknownVMM (vmm : VMMKind)
  | snapshotDirRequired
  | workspaceRootRequired
  | maxRunsNotPositive
  | maxCommittedBytesNotPositive
  | reserveExceedsBudget (reserve committed : Int)
  | standbyIdleNotBelowWorkspaceIdle (standby workspace : Int)
  | scanIntervalAboveStandbyIdle (interval standby : Int)
deriving DecidableEq, Repr

/-- A field that is not positive takes its default. -/
def orDefault (value default : Int) : Int := if value ≤ 0 then default else value

/-- The defaulting half of `Normalize`. `ReclaimScanInterval` is derived from the
`StandbyIdle` that has already been defaulted.
SRCLINE: config.go:84-109 -/
def Config.withDefaults (c : Config) : Config :=
  let standbyIdle := orDefault c.standbyIdle defaultStandbyIdle
  { c with
    standbyDepth := orDefault c.standbyDepth defaultStandbyDepth
    guestRAMBytes := orDefault c.guestRAMBytes defaultGuestRAMBytes
    vmOverheadBytes := orDefault c.vmOverheadBytes defaultVMOverheadBytes
    standbyIdle := standbyIdle
    workspaceIdle := orDefault c.workspaceIdle defaultWorkspaceIdle
    replenishDelay := orDefault c.replenishDelay defaultReplenishDelay
    maxReclaimsPerScan := orDefault c.maxReclaimsPerScan defaultMaxReclaimsPerScan
    reclaimScanInterval := orDefault c.reclaimScanInterval (standbyIdle.tdiv 4) }

/-- The validating half of `Normalize`: the first rule broken, if any.
SRCLINE: config.go:111-142 -/
def Config.violation (c : Config) : Option ConfigError :=
  match c.vmm with
  | .other _ => some (.unknownVMM c.vmm)
  | _ =>
    if c.snapshotDir = "" then some .snapshotDirRequired
    else if c.workspaceRoot = "" then some .workspaceRootRequired
    else if c.maxRuns ≤ 0 then some .maxRunsNotPositive
    else if c.maxCommittedBytes ≤ 0 then some .maxCommittedBytesNotPositive
    else if c.memoryReserveBytes ≥ c.maxCommittedBytes then
      some (.reserveExceedsBudget c.memoryReserveBytes c.maxCommittedBytes)
    else if c.standbyIdle ≥ c.workspaceIdle then
      some (.standbyIdleNotBelowWorkspaceIdle c.standbyIdle c.workspaceIdle)
    else if c.reclaimScanInterval > c.standbyIdle then
      some (.scanIntervalAboveStandbyIdle c.reclaimScanInterval c.standbyIdle)
    else none

/-- `Normalize` fills defaults and then validates.
SRCLINE: config.go:83-143 -/
def Config.normalize (c : Config) : Except ConfigError Config :=
  match c.withDefaults.violation with
  | some e => .error e
  | none => .ok c.withDefaults

/-- What one VM costs the admission-control budget.
SRCLINE: config.go:155-157 -/
def perVMBytes (c : Config) : Int := wrap64 (c.guestRAMBytes + c.vmOverheadBytes)

variable {c c' : Config}

theorem reserve_lt_of_normalize (h : c.normalize = .ok c') :
    c'.memoryReserveBytes < c'.maxCommittedBytes := by
  unfold Config.normalize at h
  split at h
  · cases h
  · rename_i hv
    cases h
    unfold Config.violation at hv
    grind

theorem maxRuns_pos_of_normalize (h : c.normalize = .ok c') : 0 < c'.maxRuns := by
  unfold Config.normalize at h
  split at h
  · cases h
  · rename_i hv
    cases h
    unfold Config.violation at hv
    grind

theorem maxReclaimsPerScan_pos_of_normalize (h : c.normalize = .ok c') :
    0 < c'.maxReclaimsPerScan := by
  unfold Config.normalize at h
  split at h
  · cases h
  · cases h
    show 0 < orDefault c.maxReclaimsPerScan defaultMaxReclaimsPerScan
    unfold orDefault defaultMaxReclaimsPerScan
    split
    · decide
    · omega

end ServerlessHarness.VmPool
