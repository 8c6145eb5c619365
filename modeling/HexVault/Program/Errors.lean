/-!
Errors an instruction can end with: the program's own table, the account
constraints Anchor checks before a handler runs, and the token program's.
-/

namespace HexVault

/-- The program's error table, in its order. -/
inductive HexVaultError where
  | arithmeticOverflow
  | poolPaused
  | belowMinimumDeposit
  | zeroAmount
  | insufficientPrincipal
  | insufficientEntries
  | mintMismatch
  | notAuthorityOwned
  | invalidParameter
  | houseCannotDeposit
  | roundAlreadyOpen
  | roundNotOpen
  | roundClosed
  | roundNotEnded
  | roundNotRequested
  | roundNotSettled
  | roundOutsideEpoch
  | invalidRoundLength
  | invalidTileSelection
  | invalidStake
  | epochNotEnded
  | epochNotRegistering
  | epochNotDrawing
  | epochNotDrawn
  | notPreviousEpoch
  | alreadyRegistered
  | frozenEpochMismatch
  | notRegistered
  | notTheWinner
  | nothingRegistered
  | invalidRandomnessAccount
  | randomnessNotFulfilled
  | randomnessRejection
  | vrfTimeoutNotElapsed
  | unauthorized
  | noPendingAdmin
  | insufficientVaultLiquidity
  | withdrawalNotDue
  | nothingPending
  | belowPendingWithdrawals
  | invalidAdminTokenAccount
  | randomnessAlreadyFulfilled
  | registrationWindowOpen
  | houseCannotPlay
  | unsupportedMint
  | payoutTimeoutNotElapsed
  | houseCannotBuyTickets
  | dailyBuyCapExceeded
  | houseCannotBeGranted
  | dailyPlayerGrantCapExceeded
  | dailyPoolGrantCapExceeded
  | poolShutDown
  | poolNotShutDown
  | houseCannotEmergencyWithdraw
  | insufficientVault
  | roundHasOpenPositions
  | previousEpochStillDrawing
  | noEpochYet
  | gamePaused
  | jackpotPaused
  deriving DecidableEq, Repr

/-- The account constraints the instruction contexts declare. -/
inductive AnchorError where
  | accountNotInitialized
  | accountAlreadyInUse
  | constraintHasOne
  | constraintTokenMint
  | constraintTokenOwner
  deriving DecidableEq, Repr

inductive TokenError where
  | insufficientFunds
  | overflow
  deriving DecidableEq, Repr

inductive ProgramError where
  | vault (e : HexVaultError)
  | anchor (e : AnchorError)
  | token (e : TokenError)
  /-- A panic in the handler: the instruction fails whatever called it. -/
  | abort
  /-- The runtime never takes the step: its clock does not run backwards. -/
  | runtime
  deriving DecidableEq, Repr

instance : Coe HexVaultError ProgramError := ⟨.vault⟩
instance : Coe AnchorError ProgramError := ⟨.anchor⟩

abbrev Result (α : Type) := Except ProgramError α

end HexVault
