import HexVault.Lib.Journals
import HexVault.Program.Instructions

/-!
The books the events keep. What the instructions emit is enough to follow every balance without
reading an account: each owner's Principal, pending withdrawal, Tickets and per-epoch counters, the
pool's totals, roles and pauses, the rounds with the stakes on them and the epochs with their
registered line. What no event carries is left out: parameters, deadlines, randomness requests, the
reserved jackpot and the vaults' balances, which plain transfers move.
-/

namespace HexVault

open Journals

/-- A counter of one epoch. -/
structure Counted where
  epochId : Nat
  amount : Nat
  deriving DecidableEq, Repr

/-- What was counted for an earlier epoch is forgotten. -/
def Counted.add (counted : Counted) (epochId amount : Nat) : Counted :=
  ⟨epochId, (if counted.epochId = epochId then counted.amount else 0) + amount⟩

/-- What one owner has. -/
structure Balance where
  principal : Nat
  pending : Nat
  pendingEpoch : Nat
  /-- What could be staked now. -/
  tickets : Nat
  yieldEpoch : Nat
  bought : Counted
  bonus : Counted
  regEpoch : Nat
  regStart : Nat
  regEnd : Nat
  deriving DecidableEq, Repr

namespace Balance

def empty : Balance where
  principal := 0
  pending := 0
  pendingEpoch := 0
  tickets := 0
  yieldEpoch := 0
  bought := ⟨0, 0⟩
  bonus := ⟨0, 0⟩
  regEpoch := 0
  regStart := 0
  regEnd := 0

/-- Principal comes with as many Tickets. -/
def credit (amount : Nat) (b : Balance) : Balance :=
  { b with principal := b.principal + amount, tickets := b.tickets + amount }

def request (amount epochId : Nat) (b : Balance) : Balance :=
  { b with
    principal := b.principal - amount
    tickets := b.tickets - amount
    pending := b.pending + amount
    pendingEpoch := epochId }

def receive (tickets : Nat) (b : Balance) : Balance := { b with tickets := b.tickets + tickets }

def stake (tickets : Nat) (b : Balance) : Balance := { b with tickets := b.tickets - tickets }

def withdraw (amount : Nat) (b : Balance) : Balance := { b with pending := b.pending - amount }

/-- Everything leaves. -/
def exit (b : Balance) : Balance := { b with principal := 0, tickets := 0, pending := 0 }

def buy (epochId usdc tickets : Nat) (b : Balance) : Balance :=
  { b.receive tickets with bought := b.bought.add epochId usdc }

def grant (epochId amount : Nat) (b : Balance) : Balance :=
  { b.receive amount with bonus := b.bonus.add epochId amount }

def register (epochId regStart regEnd : Nat) (b : Balance) : Balance :=
  { b with regEpoch := epochId, regStart, regEnd }

def creditYield (epochId amount : Nat) (b : Balance) : Balance :=
  { b.credit amount with yieldEpoch := epochId }

/-- A new epoch returns every Ticket to Principal. -/
def renew (b : Balance) : Balance := { b with tickets := b.principal }

end Balance

structure RoundBook where
  epochId : Nat
  startsAt : Int
  endsAt : Int
  pot : Nat
  tileTotals : Fin TILE_COUNT → Nat
  /-- How the round ended, once it has. -/
  outcome : Option RoundStatus
  houseCut : Nat
  winningTile : Nat

namespace RoundBook

/-- What is staked on a tile. -/
def tileTotal (round : RoundBook) (tile : Nat) : Nat :=
  if h : tile < TILE_COUNT then round.tileTotals ⟨tile, h⟩ else 0

def buy (tiles : BitVec 64) (stakePerTile total : Nat) (round : RoundBook) : RoundBook :=
  { round with
    pot := round.pot + total
    tileTotals := fun tile =>
      round.tileTotals tile + if tileIsCovered tiles tile then stakePerTile else 0 }

def settle (forfeited : Bool) (houseCut winningTile : Nat) (round : RoundBook) : RoundBook :=
  { round with
    outcome := some (if forfeited then .forfeited else .settled), houseCut, winningTile }

def void (round : RoundBook) : RoundBook := { round with outcome := some .voided }

/-- A Position's share of a settled pot, while the round's epoch runs. -/
def reward (round : RoundBook) (currentEpochId : Nat) (tiles : BitVec 64) (stakePerTile : Nat) :
    Nat :=
  if round.epochId = currentEpochId ∧ round.outcome = some .settled ∧
      tileIsCovered tiles round.winningTile = true then
    (round.pot - round.houseCut) * stakePerTile / round.tileTotal round.winningTile
  else 0

end RoundBook

/-- What became of an epoch's draw. -/
inductive DrawBook where
  | undrawn
  | drawn (target : Nat)
  | paid (target : Nat) (winner : Pubkey)
  | rolledOver
  deriving DecidableEq, Repr

structure EpochBook where
  startsAt : Int
  endsAt : Int
  registeredWeight : Nat
  registeredCount : Nat
  draw : DrawBook
  deriving DecidableEq, Repr

/-- A drawn epoch is paid to a winner; any other stays as it is. -/
def DrawBook.pay (winner : Pubkey) : DrawBook → DrawBook
  | .drawn target => .paid target winner
  | other => other

namespace EpochBook

/-- The registered line grows up to `regEnd`. -/
def register (regEnd : Nat) (epoch : EpochBook) : EpochBook :=
  { epoch with registeredWeight := regEnd, registeredCount := epoch.registeredCount + 1 }

def drawAt (target : Nat) (epoch : EpochBook) : EpochBook := { epoch with draw := .drawn target }

def pay (winner : Pubkey) (epoch : EpochBook) : EpochBook :=
  { epoch with draw := epoch.draw.pay winner }

def rollOver (epoch : EpochBook) : EpochBook := { epoch with draw := .rolledOver }

end EpochBook

structure Journal where
  admin : Pubkey
  operator : Pubkey
  pendingAdmin : Pubkey
  house : Pubkey
  paused : Bool
  gamePaused : Bool
  jackpotPaused : Bool
  shutdown : Bool
  currentEpochId : Nat
  totalPrincipal : Nat
  pendingWithdrawals : Nat
  yieldBudget : Nat
  bonus : Counted
  nextRoundId : Nat
  openRoundId : Nat
  carryPot : Nat
  balances : Pubkey → Balance
  rounds : Nat → Option RoundBook
  stakes : Nat × Pubkey → Option (BitVec 64 × Nat)
  epochs : Nat → Option EpochBook

namespace Journal

def empty : Journal where
  admin := Pubkey.default
  operator := Pubkey.default
  pendingAdmin := Pubkey.default
  house := Pubkey.default
  paused := false
  gamePaused := true
  jackpotPaused := true
  shutdown := false
  currentEpochId := 0
  totalPrincipal := 0
  pendingWithdrawals := 0
  yieldBudget := 0
  bonus := ⟨0, 0⟩
  nextRoundId := 1
  openRoundId := 0
  carryPot := 0
  balances := fun _ => Balance.empty
  rounds := fun _ => none
  stakes := fun _ => none
  epochs := fun _ => none

section Entries
variable (j : Journal)

def write (owner : Pubkey) (change : Balance → Balance) : Journal :=
  { j with balances := Function.update j.balances owner (change (j.balances owner)) }

def writeRound (roundId : Nat) (change : RoundBook → RoundBook) : Journal :=
  { j with rounds := Function.update j.rounds roundId ((j.rounds roundId).map change) }

def writeEpoch (epochId : Nat) (change : EpochBook → EpochBook) : Journal :=
  { j with epochs := Function.update j.epochs epochId ((j.epochs epochId).map change) }

/-- The House is credited only while the round's epoch still runs. -/
def houseShare (roundId credit : Nat) : Nat :=
  if (j.rounds roundId).any (fun round => round.epochId == j.currentEpochId) then credit else 0

/-- What one event says. -/
def record : Event → Journal
  | .poolCreated _ admin operator _ => { j with admin, operator, house := operator }
  | .operatorChanged _ operator => { j with operator }
  | .adminProposed pendingAdmin => { j with pendingAdmin }
  | .adminChanged _ admin => { j with admin, pendingAdmin := Pubkey.default }
  | .paramsSet _ => j
  | .paused paused => { j with paused }
  | .featurePaused .game paused _ => { j with gamePaused := paused }
  | .featurePaused .jackpot paused _ => { j with jackpotPaused := paused }
  | .poolShutdown _ =>
      { j with shutdown := true, paused := true, gamePaused := true, jackpotPaused := true }
  | .deposited owner amount _ _ =>
      { j.write owner (.credit amount) with totalPrincipal := j.totalPrincipal + amount }
  | .withdrawRequested owner amount _ pendingEpoch =>
      { j.write owner (.request amount pendingEpoch) with
        totalPrincipal := j.totalPrincipal - amount
        pendingWithdrawals := j.pendingWithdrawals + amount }
  | .withdrawn owner amount _ _ =>
      { j.write owner (.withdraw amount) with
        pendingWithdrawals := j.pendingWithdrawals - amount }
  | .principalDeployed _ _ => j
  | .emergencyWithdrawn owner principal pending _ =>
      { j.write owner .exit with
        totalPrincipal := j.totalPrincipal - principal
        pendingWithdrawals := j.pendingWithdrawals - pending }
  | .houseSwept _ yieldBudget => { j with yieldBudget := j.yieldBudget - yieldBudget }
  | .ticketsBought owner epochId usdc tickets =>
      j.write owner (.buy epochId usdc tickets)
  | .ticketsGranted owner _ amount true => j.write owner (.receive amount)
  | .ticketsGranted owner epochId amount false =>
      { j.write owner (.grant epochId amount) with bonus := j.bonus.add epochId amount }
  | .roundOpened roundId epochId startsAt endsAt carryIn =>
      { j with
        rounds := Function.update j.rounds roundId (some
          ⟨epochId, startsAt, endsAt, carryIn, fun _ => 0, none, 0, 0⟩)
        nextRoundId := roundId + 1, openRoundId := roundId, carryPot := 0 }
  | .positionBought roundId owner tiles stakePerTile total =>
      { (j.write owner (.stake total)).writeRound roundId
          (.buy tiles stakePerTile total) with
        stakes := Function.update j.stakes (roundId, owner) (some (tiles, stakePerTile)) }
  | .roundSettled roundId winningTile pot forfeited houseCut =>
      { (j.write j.house (.receive
          (j.houseShare roundId (if forfeited then pot else houseCut)))).writeRound roundId
          (.settle forfeited houseCut winningTile) with
        openRoundId := 0 }
  | .positionSettled roundId owner reward =>
      { j.write owner (.receive reward) with
        stakes := Function.update j.stakes (roundId, owner) none }
  | .roundVoided roundId carryPot =>
      { j.writeRound roundId .void with carryPot, openRoundId := 0 }
  | .roundClosed roundId => { j with rounds := Function.update j.rounds roundId none }
  | .epochBegan epochId startsAt endsAt =>
      { j with
        currentEpochId := epochId
        balances := fun owner => (j.balances owner).renew
        epochs := Function.update j.epochs epochId (some
          ⟨startsAt, endsAt, 0, 0, .undrawn⟩) }
  | .registered epochId owner _ regStart regEnd =>
      (j.write owner (.register epochId regStart regEnd)).writeEpoch epochId (.register regEnd)
  | .jackpotFunded _ => j
  | .epochDrawn epochId target _ => j.writeEpoch epochId (.drawAt target)
  | .jackpotPaid epochId winner amount _ true =>
      { (j.write winner (.credit amount)).writeEpoch epochId (.pay winner) with
        totalPrincipal := j.totalPrincipal + amount }
  | .jackpotPaid epochId winner _ _ false => j.writeEpoch epochId (.pay winner)
  | .epochRolledOver epochId _ => j.writeEpoch epochId .rollOver
  | .yieldFunded amount _ => { j with yieldBudget := j.yieldBudget + amount }
  | .yieldCredited epochId owner amount _ =>
      { j.write owner (.creditYield epochId amount) with
        totalPrincipal := j.totalPrincipal + amount
        yieldBudget := j.yieldBudget - amount }

/-- The figures an event carries are those of the books it is recorded in. The Tickets that
`Withdrawn` reports are left out: that instruction does not touch the Player, so they may be those
of an earlier epoch. -/
def Valid : Event → Prop
  | .operatorChanged previous _ => previous = j.operator
  | .adminChanged previous admin => previous = j.admin ∧ admin = j.pendingAdmin
  | .poolShutdown _ => j.shutdown = false
  | .deposited owner amount principal entries =>
      principal = (j.balances owner).principal + amount ∧
        entries = (j.balances owner).tickets + amount
  | .withdrawRequested owner amount pending pendingEpoch =>
      amount ≤ (j.balances owner).principal ∧ pending = (j.balances owner).pending + amount ∧
        pendingEpoch = j.currentEpochId
  | .withdrawn owner amount principal _ =>
      amount = (j.balances owner).pending ∧ principal = (j.balances owner).principal
  | .emergencyWithdrawn owner principal pending total =>
      principal = (j.balances owner).principal ∧ pending = (j.balances owner).pending ∧
        total = principal + pending
  | .houseSwept _ yieldBudget => yieldBudget ≤ j.yieldBudget
  | .ticketsBought owner epochId usdc _ =>
      epochId = j.currentEpochId ∧
        ((j.balances owner).bought.add epochId usdc).amount ≤ (j.balances owner).principal
  | .ticketsGranted owner epochId amount byAdmin =>
      epochId = j.currentEpochId ∧ (byAdmin = false →
        ((j.balances owner).bonus.add epochId amount).amount ≤ (j.balances owner).principal)
  | .roundOpened roundId epochId _ _ carryIn =>
      j.openRoundId = 0 ∧ roundId = j.nextRoundId ∧ epochId = j.currentEpochId ∧
        carryIn = j.carryPot
  | .positionBought roundId owner tiles stakePerTile total =>
      (∃ round, j.rounds roundId = some round ∧ round.outcome = none) ∧
        j.stakes (roundId, owner) = none ∧ total = stakePerTile * countOnes tiles ∧
        total ≤ (j.balances owner).tickets
  | .roundSettled roundId winningTile pot forfeited houseCut =>
      ∃ round, j.rounds roundId = some round ∧ round.outcome = none ∧ pot = round.pot ∧
        winningTile < TILE_COUNT ∧ houseCut ≤ pot ∧
        (forfeited = true ↔ round.tileTotal winningTile = 0)
  | .positionSettled roundId owner reward =>
      ∃ round tiles stakePerTile, j.rounds roundId = some round ∧ round.outcome ≠ none ∧
        j.stakes (roundId, owner) = some (tiles, stakePerTile) ∧
        reward = round.reward j.currentEpochId tiles stakePerTile
  | .roundVoided roundId carryPot =>
      ∃ round, j.rounds roundId = some round ∧ round.outcome = none ∧
        carryPot = j.carryPot + if round.epochId = j.currentEpochId then round.pot else 0
  | .roundClosed roundId =>
      (∃ round, j.rounds roundId = some round ∧ round.outcome ≠ none) ∧
        ∀ owner, j.stakes (roundId, owner) = none
  | .epochBegan epochId _ _ => epochId = j.currentEpochId + 1 ∧ j.epochs epochId = none
  | .registered epochId owner weight regStart regEnd =>
      ∃ epoch, j.epochs epochId = some epoch ∧ epoch.draw = .undrawn ∧
        epochId + 1 = j.currentEpochId ∧ (j.balances owner).regEpoch ≠ epochId ∧ 0 < weight ∧
        regStart = epoch.registeredWeight ∧ regEnd = regStart + weight
  | .epochDrawn epochId target registeredWeight =>
      ∃ epoch, j.epochs epochId = some epoch ∧ epoch.draw = .undrawn ∧
        registeredWeight = epoch.registeredWeight ∧ target < registeredWeight
  | .jackpotPaid epochId winner _ isHouse compounded =>
      compounded = !isHouse ∧ ∃ epoch target, j.epochs epochId = some epoch ∧
        epoch.draw = .drawn target ∧ (j.balances winner).regEpoch = epochId ∧
        (j.balances winner).regStart ≤ target ∧ target < (j.balances winner).regEnd
  | .epochRolledOver epochId _ => ∃ epoch, j.epochs epochId = some epoch ∧
      (epoch.draw = .undrawn ∨ ∃ target, epoch.draw = .drawn target)
  | .yieldFunded amount budget => budget = j.yieldBudget + amount
  | .yieldCredited epochId owner amount shortfall =>
      epochId + 1 = j.currentEpochId ∧ (j.balances owner).yieldEpoch ≠ epochId ∧
        amount ≤ j.yieldBudget ∧ (shortfall = 0 ∨ amount = j.yieldBudget)
  | _ => True

end Entries

end Journal

/-! The same books, read from the accounts. -/

/-- A Player's balance: Tickets are what a touch would find. -/
def Player.balance (current : Nat) (player : Player) : Balance where
  principal := player.principal
  pending := player.pendingWithdraw
  pendingEpoch := player.pendingEpoch
  tickets := if player.epochId = current then player.entries else player.principal
  yieldEpoch := player.yieldEpoch
  bought := ⟨player.boughtEpoch, player.boughtAmount⟩
  bonus := ⟨player.bonusEpoch, player.bonusGranted⟩
  regEpoch := player.regEpoch
  regStart := player.regStart
  regEnd := player.regEnd

def RoundStatus.outcome : RoundStatus → Option RoundStatus
  | .open | .requested => none
  | status => some status

def Round.book (round : Round) : RoundBook where
  epochId := round.epochId
  startsAt := round.startsAt
  endsAt := round.endsAt
  pot := round.pot
  tileTotals := round.tileTotals
  outcome := round.status.outcome
  houseCut := round.houseCut
  winningTile := round.winningTile

def Epoch.drawBook (epoch : Epoch) : DrawBook :=
  match epoch.status with
  | .open | .registering | .drawing => .undrawn
  | .drawn => .drawn epoch.target
  | .paid => .paid epoch.target epoch.winner
  | .rolledOver => .rolledOver

def Epoch.book (epoch : Epoch) : EpochBook where
  startsAt := epoch.startsAt
  endsAt := epoch.endsAt
  registeredWeight := epoch.registeredWeight
  registeredCount := epoch.registeredCount
  draw := epoch.drawBook

section Views
variable (current : Nat) (players : Finmap fun _ : Pubkey => Player)
  (rounds : Finmap fun _ : Nat => Round) (epochs : Finmap fun _ : Nat => Epoch)
  (positions : Finmap fun _ : Nat × Pubkey => Position)

/-- An owner without an account has nothing. -/
def balanceOf (owner : Pubkey) : Balance :=
  (players.lookup owner).elim Balance.empty (Player.balance current)

def roundBooks (id : Nat) : Option RoundBook := (rounds.lookup id).map Round.book

def epochBooks (id : Nat) : Option EpochBook := (epochs.lookup id).map Epoch.book

def stakeBooks (key : Nat × Pubkey) : Option (BitVec 64 × Nat) :=
  (positions.lookup key).map fun position => (position.tiles, position.stakePerTile)

end Views

def World.journal (w : World) : Journal where
  admin := w.pool.admin
  operator := w.pool.operator
  pendingAdmin := w.pool.pendingAdmin
  house := w.pool.house
  paused := w.pool.paused
  gamePaused := w.pool.gamePaused
  jackpotPaused := w.pool.jackpotPaused
  shutdown := w.pool.shutdown
  currentEpochId := w.pool.currentEpochId
  totalPrincipal := w.pool.totalPrincipal
  pendingWithdrawals := w.pool.pendingWithdrawals
  yieldBudget := w.pool.yieldBudget
  bonus := ⟨w.pool.bonusEpoch, w.pool.bonusGranted⟩
  nextRoundId := w.pool.nextRoundId
  openRoundId := w.pool.openRoundId
  carryPot := w.pool.carryPot
  balances := balanceOf w.pool.currentEpochId w.players
  rounds := roundBooks w.rounds
  stakes := stakeBooks w.positions
  epochs := epochBooks w.epochs

/-- How the program is journaled: its events are the entries. -/
def journaling : Journaling World Event Journal where
  log := World.log
  books := World.journal
  record := Journal.record
  valid := Journal.Valid

end HexVault
