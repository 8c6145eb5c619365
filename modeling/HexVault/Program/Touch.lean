import HexVault.Program.State

/-!
The touch rule: lazy reset of Entries and accrual of Weight. Every handler that
reads or changes a Player's Entries touches the Player before its own change.
-/

namespace HexVault

open Fallible

/-- Seconds between two instants, zero when the clock ran backwards. -/
def elapsed (start stop : Int) : Nat :=
  (saturatingSub stop start).toNat

def weightOf (entries seconds : Nat) : Result Nat := mulU128 entries seconds

/-- `acc + amount × seconds`, checked as the program checks it. -/
def accrue (acc amount seconds : Nat) : Result Nat := do
  addU128 acc (← weightOf amount seconds)

/-- Where accrual in the current epoch stops. -/
def accrueUntil (pool : Pool) (now : Int) : Int :=
  if pool.currentEpochId = 0 then now else min now pool.currentEpochEndsAt

def touchSameEpoch (player : Player) (pool : Pool) (now : Int) : Result Player := do
  let tail := elapsed player.lastUpdate (accrueUntil pool now)
  let weightAcc ← accrue player.weightAcc player.entries tail
  let principalAcc ← accrue player.principalAcc player.principal tail
  return { player with weightAcc, principalAcc, lastUpdate := now }

/-- The two figures an epoch that ended is frozen with. -/
def freeze (player : Player) (pool : Pool) : Result (Nat × Nat) :=
  if player.epochId = pool.currentEpochId - 1 then do
    let tail := elapsed player.lastUpdate pool.previousEpochEndsAt
    let weight ← accrue player.weightAcc player.entries tail
    let principalSeconds ← accrue player.principalAcc player.principal tail
    return (weight, principalSeconds)
  else do
    -- Idle through the whole previous epoch: Entries equalled Principal.
    let idle ← weightOf player.principal
      (elapsed pool.previousEpochStart pool.previousEpochEndsAt)
    return (idle, idle)

def touchNewEpoch (player : Player) (pool : Pool) (now : Int) : Result Player := do
  let frozen ← freeze player pool
  let head ← weightOf player.principal
    (elapsed pool.currentEpochStart (min now pool.currentEpochEndsAt))
  return { player with
    frozenWeight := frozen.1
    frozenPrincipalAcc := frozen.2
    frozenEpoch := pool.currentEpochId - 1
    entries := player.principal
    weightAcc := head
    principalAcc := head
    lastUpdate := now
    epochId := pool.currentEpochId }

def touch (player : Player) (pool : Pool) (now : Int) : Result Player :=
  if pool.currentEpochId ≤ player.epochId then touchSameEpoch player pool now
  else touchNewEpoch player pool now

end HexVault
