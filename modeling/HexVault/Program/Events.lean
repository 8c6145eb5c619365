import HexVault.Program.State

/-!
The events the handlers emit, with the fields the indexer decodes.
-/

namespace HexVault

inductive PauseFeature where
  | game | jackpot
  deriving DecidableEq, Repr

inductive Event where
  | poolCreated (poolId : Nat) (admin operator acceptedMint : Pubkey)
  | operatorChanged (previous operator : Pubkey)
  | adminProposed (pendingAdmin : Pubkey)
  | adminChanged (previous admin : Pubkey)
  | paramsSet (pool : Pool)
  | paused (paused : Bool)
  | featurePaused (feature : PauseFeature) (paused : Bool) (at_ : Int)
  | deposited (owner : Pubkey) (amount principal entries : Nat)
  | withdrawRequested (owner : Pubkey) (amount pending pendingEpoch : Nat)
  | withdrawn (owner : Pubkey) (amount principal entries : Nat)
  | principalDeployed (amount vaultRemaining : Nat)
  | roundOpened (roundId epochId : Nat) (startsAt endsAt : Int) (carryIn : Nat)
  | positionBought (roundId : Nat) (owner : Pubkey) (tiles : BitVec 64)
      (stakePerTile total : Nat)
  | roundSettled (roundId winningTile pot : Nat) (forfeited : Bool) (houseCut : Nat)
  | roundVoided (roundId carryPot : Nat)
  | roundClosed (roundId : Nat)
  | positionSettled (roundId : Nat) (owner : Pubkey) (reward : Nat)
  | epochBegan (epochId : Nat) (startsAt endsAt : Int)
  | registered (epochId : Nat) (owner : Pubkey) (weight regStart regEnd : Nat)
  | jackpotFunded (amount : Nat)
  | epochDrawn (epochId target registeredWeight : Nat)
  | jackpotPaid (epochId : Nat) (winner : Pubkey) (amount : Nat) (isHouse compounded : Bool)
  | epochRolledOver (epochId jackpotAmount : Nat)
  | yieldFunded (amount budget : Nat)
  | yieldCredited (epochId : Nat) (owner : Pubkey) (amount shortfall : Nat)
  | ticketsBought (owner : Pubkey) (epochId usdc tickets : Nat)
  | ticketsGranted (owner : Pubkey) (epochId amount : Nat) (byAdmin : Bool)
  | poolShutdown (at_ : Int)
  | emergencyWithdrawn (owner : Pubkey) (principal pending total : Nat)
  | houseSwept (jackpot yieldBudget : Nat)
  deriving DecidableEq, Repr

end HexVault
