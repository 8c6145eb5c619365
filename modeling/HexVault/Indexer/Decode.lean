import HexVault.Program.Events

/-!
What the indexer reads from a transaction's logs: each event under the name the
program declares, with the fields of its data by their JSON names.
-/

namespace HexVault

namespace Indexer

/-- A field as `jsonify` renders it. A key and a wide integer become strings, kept
here as the key or the integer they render. -/
inductive JsonValue where
  | key (key : Pubkey)
  | integer (value : Int)
  | number (value : Nat)
  | boolean (value : Bool)
  | variant (name : String)
  deriving DecidableEq, Repr

structure DecodedEvent where
  name : String
  data : List (String × JsonValue)
  deriving DecidableEq, Repr

def featureName : PauseFeature → String
  | .game => "game"
  | .jackpot => "jackpot"

/-- The data of one event, emitted by an instruction on the given pool. -/
def decodeEvent (pool : Pubkey) : Event → DecodedEvent
  | .poolCreated poolId admin operator acceptedMint => ⟨"PoolCreated",
      [("pool", .key pool), ("poolId", .integer poolId), ("admin", .key admin),
        ("operator", .key operator), ("acceptedMint", .key acceptedMint)]⟩
  | .operatorChanged previous operator => ⟨"OperatorChanged",
      [("pool", .key pool), ("previous", .key previous), ("operator", .key operator)]⟩
  | .adminProposed pendingAdmin => ⟨"AdminProposed",
      [("pool", .key pool), ("pendingAdmin", .key pendingAdmin)]⟩
  | .adminChanged previous admin => ⟨"AdminChanged",
      [("pool", .key pool), ("previous", .key previous), ("admin", .key admin)]⟩
  | .paramsSet params => ⟨"ParamsSet",
      [("pool", .key pool), ("epochSeconds", .integer params.epochSeconds),
        ("epochAnchor", .integer params.epochAnchor),
        ("roundSeconds", .integer params.roundSeconds),
        ("closeBuffer", .integer params.closeBuffer), ("vrfTimeout", .integer params.vrfTimeout),
        ("minDeposit", .integer params.minDeposit), ("houseCutBps", .number params.houseCutBps),
        ("minJackpot", .integer params.minJackpot),
        ("registrationWindow", .integer params.registrationWindow),
        ("payoutTimeout", .integer params.payoutTimeout),
        ("baseRateBps", .number params.baseRateBps),
        ("ticketsPerUsdc", .number params.ticketsPerUsdc),
        ("bonusCapBps", .number params.bonusCapBps)]⟩
  | .paused paused => ⟨"Paused", [("pool", .key pool), ("paused", .boolean paused)]⟩
  | .featurePaused feature paused at_ => ⟨"FeaturePaused",
      [("pool", .key pool), ("feature", .variant (featureName feature)),
        ("paused", .boolean paused), ("at", .integer at_)]⟩
  | .deposited owner amount principal entries => ⟨"Deposited",
      [("owner", .key owner), ("amount", .integer amount), ("principal", .integer principal),
        ("entries", .integer entries)]⟩
  | .withdrawRequested owner amount pending pendingEpoch => ⟨"WithdrawRequested",
      [("owner", .key owner), ("amount", .integer amount), ("pending", .integer pending),
        ("pendingEpoch", .integer pendingEpoch)]⟩
  | .withdrawn owner amount principal entries => ⟨"Withdrawn",
      [("owner", .key owner), ("amount", .integer amount), ("principal", .integer principal),
        ("entries", .integer entries)]⟩
  | .principalDeployed amount vaultRemaining => ⟨"PrincipalDeployed",
      [("pool", .key pool), ("amount", .integer amount),
        ("vaultRemaining", .integer vaultRemaining)]⟩
  | .roundOpened roundId epochId startsAt endsAt carryIn => ⟨"RoundOpened",
      [("roundId", .integer roundId), ("epochId", .integer epochId),
        ("startsAt", .integer startsAt), ("endsAt", .integer endsAt),
        ("carryIn", .integer carryIn)]⟩
  | .positionBought roundId owner tiles stakePerTile total => ⟨"PositionBought",
      [("roundId", .integer roundId), ("owner", .key owner), ("tiles", .integer tiles.toNat),
        ("stakePerTile", .integer stakePerTile), ("total", .integer total)]⟩
  | .roundSettled roundId winningTile pot forfeited houseCut => ⟨"RoundSettled",
      [("roundId", .integer roundId), ("winningTile", .number winningTile),
        ("pot", .integer pot), ("forfeited", .boolean forfeited),
        ("houseCut", .integer houseCut)]⟩
  | .roundVoided roundId carryPot => ⟨"RoundVoided",
      [("roundId", .integer roundId), ("carryPot", .integer carryPot)]⟩
  | .roundClosed roundId => ⟨"RoundClosed", [("roundId", .integer roundId)]⟩
  | .positionSettled roundId owner reward => ⟨"PositionSettled",
      [("roundId", .integer roundId), ("owner", .key owner), ("reward", .integer reward)]⟩
  | .epochBegan epochId startsAt endsAt => ⟨"EpochBegan",
      [("epochId", .integer epochId), ("startsAt", .integer startsAt),
        ("endsAt", .integer endsAt)]⟩
  | .registered epochId owner weight regStart regEnd => ⟨"Registered",
      [("epochId", .integer epochId), ("owner", .key owner), ("weight", .integer weight),
        ("regStart", .integer regStart), ("regEnd", .integer regEnd)]⟩
  | .jackpotFunded amount => ⟨"JackpotFunded", [("amount", .integer amount)]⟩
  | .epochDrawn epochId target registeredWeight => ⟨"EpochDrawn",
      [("epochId", .integer epochId), ("target", .integer target),
        ("registeredWeight", .integer registeredWeight)]⟩
  | .jackpotPaid epochId winner amount isHouse compounded => ⟨"JackpotPaid",
      [("epochId", .integer epochId), ("winner", .key winner), ("amount", .integer amount),
        ("isHouse", .boolean isHouse), ("compounded", .boolean compounded)]⟩
  | .epochRolledOver epochId jackpotAmount => ⟨"EpochRolledOver",
      [("epochId", .integer epochId), ("jackpotAmount", .integer jackpotAmount)]⟩
  | .yieldFunded amount budget => ⟨"YieldFunded",
      [("amount", .integer amount), ("budget", .integer budget)]⟩
  | .yieldCredited epochId owner amount shortfall => ⟨"YieldCredited",
      [("epochId", .integer epochId), ("owner", .key owner), ("amount", .integer amount),
        ("shortfall", .integer shortfall)]⟩
  | .ticketsBought owner epochId usdc tickets => ⟨"TicketsBought",
      [("owner", .key owner), ("epochId", .integer epochId), ("usdc", .integer usdc),
        ("tickets", .integer tickets)]⟩
  | .ticketsGranted owner epochId amount byAdmin => ⟨"TicketsGranted",
      [("owner", .key owner), ("epochId", .integer epochId), ("amount", .integer amount),
        ("byAdmin", .boolean byAdmin)]⟩
  | .poolShutdown at_ => ⟨"PoolShutdown", [("pool", .key pool), ("at", .integer at_)]⟩
  | .emergencyWithdrawn owner principal pending total => ⟨"EmergencyWithdrawn",
      [("owner", .key owner), ("principal", .integer principal), ("pending", .integer pending),
        ("total", .integer total)]⟩
  | .houseSwept jackpot yieldBudget => ⟨"HouseSwept",
      [("jackpot", .integer jackpot), ("yieldBudget", .integer yieldBudget)]⟩

/-- `eventField`, of a field that names a wallet. -/
def eventKey (event : DecodedEvent) (field : String) : Option Pubkey :=
  match event.data.lookup field with
  | some (.key key) => some key
  | _ => none

/-- `eventField` and `BigInt`, of a field that holds a wide integer. -/
def eventInteger (event : DecodedEvent) (field : String) : Option Int :=
  match event.data.lookup field with
  | some (.integer value) => some value
  | _ => none

def eventBool (event : DecodedEvent) (field : String) : Option Bool :=
  match event.data.lookup field with
  | some (.boolean value) => some value
  | _ => none

/-- The Position a `PositionSettled` closed, by owner and round. -/
def settledPosition (event : DecodedEvent) : Option (Pubkey × Int) :=
  if event.name = "PositionSettled" then do
    let owner ← eventKey event "owner"
    let roundId ← eventInteger event "roundId"
    return (owner, roundId)
  else none

def closedRound (event : DecodedEvent) : Option Int :=
  if event.name = "RoundClosed" then eventInteger event "roundId" else none

end Indexer

end HexVault
