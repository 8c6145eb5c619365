import HexVault.Invariants.Journaled
import HexVault.Lib.Shares

/-!
A round as its events tell it: it opens, owners stake on it once each, it settles or is voided,
each stake is closed once, and the round is closed after the last one. The rewards are shares of
the pot after the cut, so together never more than it. What is shown here holds of every sound log.
-/

namespace HexVault

open Fallible Journals Shares

/-- What one owner staked. -/
structure RoundStake where
  owner : Pubkey
  tiles : BitVec 64
  stakePerTile : Nat
  deriving DecidableEq, Repr

def RoundStake.total (stake : RoundStake) : Nat := stake.stakePerTile * countOnes stake.tiles

/-- What the stake puts on one tile. -/
def RoundStake.on (tile : Nat) (stake : RoundStake) : Nat :=
  if tileIsCovered stake.tiles tile then stake.stakePerTile else 0

inductive RoundEnd where
  | settled (winningTile pot : Nat) (forfeited : Bool) (houseCut : Nat)
  | voided (carryPot : Nat)
  deriving DecidableEq, Repr

/-- How a round ended and what was paid after it. -/
structure RoundFinish where
  how : RoundEnd
  rewards : List (RoundStake × Nat)
  closed : Bool

structure RoundTale where
  epochId : Nat
  startsAt : Int
  endsAt : Int
  carryIn : Nat
  stakes : List RoundStake
  finish : Option RoundFinish

/-- The events of one round's life. -/
def Event.ofRound (id : Nat) : Event → Bool
  | .roundOpened roundId .. | .positionBought roundId .. | .roundSettled roundId ..
  | .positionSettled roundId .. | .roundVoided roundId .. | .roundClosed roundId => roundId == id
  | _ => false

def RoundStake.event (id : Nat) (stake : RoundStake) : Event :=
  .positionBought id stake.owner stake.tiles stake.stakePerTile stake.total

def RoundEnd.event (id : Nat) : RoundEnd → Event
  | .settled winningTile pot forfeited houseCut =>
      .roundSettled id winningTile pot forfeited houseCut
  | .voided carryPot => .roundVoided id carryPot

def RoundFinish.events (id : Nat) (finish : RoundFinish) : List Event :=
  finish.how.event id ::
    (finish.rewards.map (fun paid => .positionSettled id paid.1.owner paid.2) ++
      if finish.closed then [.roundClosed id] else [])

/-- The tale as the log tells it. -/
def RoundTale.events (id : Nat) (tale : RoundTale) : List Event :=
  .roundOpened id tale.epochId tale.startsAt tale.endsAt tale.carryIn ::
    (tale.stakes.map (RoundStake.event id) ++ tale.finish.elim [] (RoundFinish.events id))

namespace RoundTale

/-- What went into the pot. -/
def pot (tale : RoundTale) : Nat := tale.carryIn + (tale.stakes.map RoundStake.total).sum

def staked (tale : RoundTale) (tile : Nat) : Nat := (tale.stakes.map (RoundStake.on tile)).sum

/-- What a stake is paid in an epoch: its share of a pot settled on one of its tiles while the
round's own epoch runs, and nothing otherwise. -/
def owes (tale : RoundTale) (currentEpochId : Nat) (stake : RoundStake) : RoundEnd → Nat
  | .settled winningTile pot forfeited houseCut =>
      if tale.epochId = currentEpochId ∧ forfeited = false ∧
          tileIsCovered stake.tiles winningTile = true then
        (pot - houseCut) * stake.stakePerTile / tale.staked winningTile
      else 0
  | .voided _ => 0

/-- The figures of a settlement are the stakes': the whole pot, and forfeited exactly when nobody
staked on the winning tile. -/
def Settles (tale : RoundTale) : RoundEnd → Prop
  | .settled winningTile pot forfeited houseCut => pot = tale.pot ∧ houseCut ≤ pot ∧
      winningTile < TILE_COUNT ∧ (forfeited = true ↔ tale.staked winningTile = 0)
  | .voided _ => True

structure FairFinish (tale : RoundTale) (finish : RoundFinish) : Prop where
  how : tale.Settles finish.how
  staked : ∀ {paid}, paid ∈ finish.rewards → paid.1 ∈ tale.stakes
  owed : ∀ {paid}, paid ∈ finish.rewards → ∃ currentEpochId,
    paid.2 = tale.owes currentEpochId paid.1 finish.how
  once : (finish.rewards.map Prod.fst).Nodup
  closed : finish.closed = true → ∀ stake ∈ tale.stakes, stake ∈ finish.rewards.map Prod.fst

structure Fair (tale : RoundTale) : Prop where
  distinct : (tale.stakes.map RoundStake.owner).Nodup
  finish : ∀ {finish}, tale.finish = some finish → tale.FairFinish finish

end RoundTale

/-- The epoch an event leaves current. -/
def Event.epochAfter (currentEpochId : Nat) : Event → Nat
  | .epochBegan epochId .. => epochId
  | _ => currentEpochId

/-- The epoch that is current once the events of a log have been emitted. -/
def epochAfter (log : List Event) : Nat := log.foldl Event.epochAfter 0

namespace RoundTale

/-- One settlement of the tale: a stake of the owner gets exactly what it is owed in an epoch. -/
def Settled (tale : RoundTale) (currentEpochId : Nat) (owner : Pubkey) (reward : Nat) : Prop :=
  ∃ finish stake, tale.finish = some finish ∧ stake ∈ tale.stakes ∧ stake.owner = owner ∧
    reward = tale.owes currentEpochId stake finish.how

/-- A log tells of the round this tale and nothing else, each reward being what was owed in the
epoch that had begun last before it. -/
structure Tells (tale : RoundTale) (id : Nat) (log : List Event) : Prop where
  events : log.filter (Event.ofRound id) = tale.events id
  exact : ∀ {before owner reward after}, log = before ++ .positionSettled id owner reward :: after →
    tale.Settled (epochAfter before) owner reward

/-- What a finished tale said of its stakes and its end is said by the later one. -/
def Follows (tale' tale : RoundTale) : Prop :=
  ∀ {finish}, tale.finish = some finish → tale'.epochId = tale.epochId ∧
    tale'.stakes = tale.stakes ∧ ∃ finish', tale'.finish = some finish' ∧ finish'.how = finish.how

def Settling (tale : RoundTale) (id currentEpochId : Nat) (event : Event) : Prop :=
  ∀ {owner reward}, event = .positionSettled id owner reward →
    tale.Settled currentEpochId owner reward

end RoundTale

def RoundEnd.outcome : RoundEnd → RoundStatus
  | .settled _ _ forfeited _ => if forfeited then .forfeited else .settled
  | .voided _ => .voided

/-- The settlement's figures in the books. -/
def RoundEnd.InBook (round : RoundBook) : RoundEnd → Prop
  | .settled winningTile pot _ houseCut => round.winningTile = winningTile ∧ round.pot = pot ∧
      round.houseCut = houseCut
  | .voided _ => True

namespace RoundTale

def rewarded (tale : RoundTale) : List RoundStake :=
  tale.finish.elim [] fun finish => finish.rewards.map Prod.fst

/-- The tale of an open or finished round fits what the books say of it. -/
structure FitsBook (tale : RoundTale) (round : RoundBook) : Prop where
  epoch : round.epochId = tale.epochId
  unclosed : ∀ {finish}, tale.finish = some finish → finish.closed = false
  pot : round.pot = tale.pot
  staked : ∀ tile : Fin TILE_COUNT, round.tileTotals tile = tale.staked tile
  outcome : round.outcome = tale.finish.map fun finish => finish.how.outcome
  figures : ∀ {finish}, tale.finish = some finish → finish.how.InBook round

structure Fits (tale : RoundTale) (id : Nat) (books : Journal) : Prop where
  known : ∀ {round}, books.rounds id = some round → tale.FitsBook round
  gone : books.rounds id = none → ∃ finish, tale.finish = some finish ∧ finish.closed = true
  outstanding : ∀ owner tiles stakePerTile, books.stakes (id, owner) = some (tiles, stakePerTile) ↔
    ⟨owner, tiles, stakePerTile⟩ ∈ tale.stakes ∧ ⟨owner, tiles, stakePerTile⟩ ∉ tale.rewarded

end RoundTale

/-- Every round ever opened has a fair tale, and no other one is told. -/
structure RoundsTold (log : List Event) (books : Journal) : Prop where
  epoch : books.currentEpochId = epochAfter log
  started : 1 ≤ books.nextRoundId
  begun : ∀ {id round}, books.rounds id = some round → 1 ≤ id ∧ id < books.nextRoundId
  untold : ∀ {id}, id = 0 ∨ books.nextRoundId ≤ id → log.filter (Event.ofRound id) = []
  unstaked : ∀ {id}, books.nextRoundId ≤ id → ∀ owner, books.stakes (id, owner) = none
  told : ∀ {id}, 1 ≤ id → id < books.nextRoundId → ∃ tale : RoundTale,
    tale.Fair ∧ tale.Fits id books ∧ tale.Tells id log

section Shares
variable {tale tale' : RoundTale} {finish : RoundFinish}

theorem RoundTale.owes_congr {currentEpochId : Nat} {stake : RoundStake} {how : RoundEnd}
    (epoch : tale'.epochId = tale.epochId) (stakes : tale'.stakes = tale.stakes) :
    tale'.owes currentEpochId stake how = tale.owes currentEpochId stake how := by
  cases how with
  | settled =>
      rw [RoundTale.owes, RoundTale.owes, RoundTale.staked, RoundTale.staked, epoch, stakes]
  | voided => rfl

/-- It is never more than a share. -/
theorem RoundTale.owes_le {currentEpochId winningTile pot houseCut : Nat} {forfeited : Bool}
    {stake : RoundStake} :
    tale.owes currentEpochId stake (.settled winningTile pot forfeited houseCut) ≤
      share (pot - houseCut) (tale.staked winningTile) (stake.on winningTile) := by
  rw [RoundTale.owes]
  split
  · next all =>
      rw [RoundStake.on, if_pos all.2.2]
      exact Nat.le_refl _
  · exact Nat.zero_le _

/-- What a settled round pays is never more than the pot after the cut. -/
theorem RoundTale.FairFinish.paid_le (fair : tale.FairFinish finish)
    {winningTile pot houseCut : Nat} {forfeited : Bool}
    (how : finish.how = .settled winningTile pot forfeited houseCut) :
    (finish.rewards.map Prod.snd).sum ≤ pot - houseCut := by
  have part : ∀ paid ∈ finish.rewards, paid.2 ≤
      share (pot - houseCut) (tale.staked winningTile) (paid.1.on winningTile) := by
    intro paid mem
    obtain ⟨currentEpochId, owed⟩ := fair.owed mem
    rw [owed, how]
    exact RoundTale.owes_le
  have within : ((finish.rewards.map Prod.fst).map (RoundStake.on winningTile)).sum ≤
      tale.staked winningTile := by
    have sub : (finish.rewards.map Prod.fst).Subperm tale.stakes := by
      refine List.subperm_of_subset fair.once fun stake mem => ?_
      obtain ⟨paid, inside, rfl⟩ := List.mem_map.mp mem
      exact fair.staked inside
    obtain ⟨some, perm, part⟩ := sub
    calc ((finish.rewards.map Prod.fst).map (RoundStake.on winningTile)).sum
        = (some.map (RoundStake.on winningTile)).sum := ((perm.map _).sum_eq).symm
      _ ≤ tale.staked winningTile := (part.map _).sum_le_sum fun _ _ => Nat.zero_le _
  calc (finish.rewards.map Prod.snd).sum
      ≤ (finish.rewards.map fun paid =>
          share (pot - houseCut) (tale.staked winningTile) (paid.1.on winningTile)).sum :=
        List.sum_le_sum part
    _ ≤ pot - houseCut := by
        refine sum_share_le _ _ ?_
        rw [List.map_map] at within
        exact within

end Shares

section Told
variable {log : List Event} {books books' : Journal} {event : Event} {id : Nat}
  {round round' : RoundBook} {tale : RoundTale}

theorem roundsTold_empty : RoundsTold [] Journal.empty where
  epoch := rfl
  started := Nat.le_refl 1
  begun := fun h => by cases h
  untold := fun _ => rfl
  unstaked := fun _ _ => rfl
  told := fun one before => absurd before (Nat.not_lt.mpr one)

theorem RoundTale.Fits.same (fits : tale.Fits id books)
    (rounds : books'.rounds id = books.rounds id)
    (stakes : ∀ owner, books'.stakes (id, owner) = books.stakes (id, owner)) :
    tale.Fits id books' where
  known := fun h => fits.known (rounds.symm.trans h)
  gone := fun h => fits.gone (rounds.symm.trans h)
  outstanding := fun owner tiles stakePerTile =>
    stakes owner ▸ fits.outstanding owner tiles stakePerTile

theorem epochAfter_snoc : epochAfter (log ++ [event]) = event.epochAfter (epochAfter log) :=
  List.foldl_append

/-- The rest of the log is not this round's. -/
theorem RoundTale.Tells.aside (tells : tale.Tells id log) (other : event.ofRound id = false) :
    tale.Tells id (log ++ [event]) where
  events := (filter_snoc_of_neg other).trans tells.events
  exact := by
    intro before owner reward after split
    rcases snoc_split split with ⟨rest, early⟩ | ⟨-, last⟩
    · exact tells.exact early
    · rw [← last, Event.ofRound, beq_self_eq_true] at other
      cases other

/-- A tale taken further by one event: what was settled stays so, and a Position settled now gets
what it is owed in the epoch that runs. -/
theorem RoundTale.Tells.further {tale' : RoundTale} (tells : tale.Tells id log)
    (own : event.ofRound id = true) (events : tale'.events id = tale.events id ++ [event])
    (after : tale'.Follows tale) (now : tale'.Settling id (epochAfter log) event) :
    tale'.Tells id (log ++ [event]) where
  events := by rw [filter_snoc_of_pos own, tells.events, events]
  exact := by
    intro before owner reward rest split
    rcases snoc_split split with ⟨rest, early⟩ | ⟨rfl, last⟩
    · obtain ⟨finish, stake, ended, mem, holder, exact⟩ := tells.exact early
      obtain ⟨epoch, stakes, finish', ended', how⟩ := after ended
      refine ⟨finish', stake, ended', stakes ▸ mem, holder, ?_⟩
      rw [exact, how, RoundTale.owes_congr epoch stakes]
    · exact now last.symm

/-- An event of no round. -/
theorem RoundsTold.quiet (hi : RoundsTold log books) (other : ∀ id, event.ofRound id = false)
    (epoch : books'.currentEpochId = event.epochAfter books.currentEpochId)
    (rounds : books'.rounds = books.rounds) (stakes : books'.stakes = books.stakes)
    (next : books'.nextRoundId = books.nextRoundId) : RoundsTold (log ++ [event]) books' where
  epoch := by rw [epoch, hi.epoch, epochAfter_snoc]
  started := next ▸ hi.started
  begun := by
    intro id round h
    rw [rounds] at h
    exact next ▸ hi.begun h
  untold := by
    intro id unopened
    rw [next] at unopened
    rw [filter_snoc_of_neg (other id)]
    exact hi.untold unopened
  unstaked := by
    intro id unopened owner
    rw [next] at unopened
    rw [stakes]
    exact hi.unstaked unopened owner
  told := by
    intro id one before
    rw [next] at before
    obtain ⟨tale, fair, fits, tells⟩ := hi.told one before
    exact ⟨tale, fair, fits.same (congrFun rounds id) (fun owner => congrFun stakes (id, owner)),
      tells.aside (other id)⟩

/-- An event of one round in the books. -/
theorem RoundsTold.tell (hi : RoundsTold log books) (hr : books.rounds id = some round)
    (own : ∀ other, event.ofRound other = (id == other))
    (epoch : books'.currentEpochId = event.epochAfter books.currentEpochId)
    (rounds : ∀ other, other ≠ id → books'.rounds other = books.rounds other)
    (stakes : ∀ other, other ≠ id → ∀ owner,
      books'.stakes (other, owner) = books.stakes (other, owner))
    (next : books'.nextRoundId = books.nextRoundId)
    (following : ∀ {tale : RoundTale}, tale.Fair → tale.Fits id books → ∃ tale' : RoundTale,
      tale'.Fair ∧ tale'.Fits id books' ∧ tale'.events id = tale.events id ++ [event] ∧
        tale'.Follows tale ∧ tale'.Settling id books.currentEpochId event) :
    RoundsTold (log ++ [event]) books' := by
  obtain ⟨one, before⟩ := hi.begun hr
  have apart : ∀ {other}, other ≠ id → event.ofRound other = false := fun different =>
    (own _).trans (beq_false_of_ne (Ne.symm different))
  refine ⟨by rw [epoch, hi.epoch, epochAfter_snoc], next ▸ hi.started, ?_, ?_, ?_, ?_⟩
  · intro other x h
    rw [next]
    by_cases same : other = id
    · exact same ▸ ⟨one, before⟩
    · exact hi.begun ((rounds other same).symm.trans h)
  · intro other unopened
    rw [next] at unopened
    rw [filter_snoc_of_neg (apart (by omega))]
    exact hi.untold unopened
  · intro other unopened owner
    rw [next] at unopened
    rw [stakes other (by omega)]
    exact hi.unstaked unopened owner
  · intro other one' before'
    rw [next] at before'
    obtain ⟨tale, fair, fits, tells⟩ := hi.told one' before'
    by_cases same : other = id
    · subst same
      obtain ⟨tale', fair', fits', events, follows, settling⟩ := following fair fits
      exact ⟨tale', fair', fits', tells.further ((own other).trans (beq_self_eq_true other)) events
        follows (hi.epoch ▸ settling)⟩
    · exact ⟨tale, fair, fits.same (rounds other same) (stakes other same),
        tells.aside (apart same)⟩

/-- A round opens with what was carried, and nothing is staked on it. -/
theorem RoundsTold.opened {epochId carryIn : Nat} {startsAt endsAt : Int}
    (hi : RoundsTold log books) : RoundsTold
      (log ++ [.roundOpened books.nextRoundId epochId startsAt endsAt carryIn])
      (books.record (.roundOpened books.nextRoundId epochId startsAt endsAt carryIn)) := by
  have own : ∀ other, (Event.roundOpened books.nextRoundId epochId startsAt endsAt carryIn).ofRound
      other = (books.nextRoundId == other) := fun _ => rfl
  have apart : ∀ {other}, other ≠ books.nextRoundId →
      (Event.roundOpened books.nextRoundId epochId startsAt endsAt carryIn).ofRound other = false :=
    fun different => (own _).trans (beq_false_of_ne (Ne.symm different))
  have rounds : (books.record (.roundOpened books.nextRoundId epochId startsAt endsAt
      carryIn)).rounds = Function.update books.rounds books.nextRoundId
        (some ⟨epochId, startsAt, endsAt, carryIn, fun _ => 0, none, 0, 0⟩) := rfl
  have started := hi.started
  refine ⟨by rw [epochAfter_snoc]; exact hi.epoch, Nat.le_add_left 1 _, ?_, ?_, ?_, ?_⟩
  · intro other x h
    change 1 ≤ other ∧ other < books.nextRoundId + 1
    by_cases same : other = books.nextRoundId
    · omega
    · rw [rounds, Function.update_of_ne same] at h
      have := hi.begun h
      omega
  · intro other unopened
    change other = 0 ∨ books.nextRoundId + 1 ≤ other at unopened
    rw [filter_snoc_of_neg (apart (by omega))]
    exact hi.untold (by omega)
  · intro other unopened owner
    change books.nextRoundId + 1 ≤ other at unopened
    exact hi.unstaked (by omega) owner
  · intro other one before
    change other < books.nextRoundId + 1 at before
    by_cases same : other = books.nextRoundId
    · subst same
      refine ⟨⟨epochId, startsAt, endsAt, carryIn, [], none⟩, ⟨List.nodup_nil, ?_⟩,
        ⟨?_, ?_, ?_⟩, ?_⟩
      · exact fun h => by cases h
      · intro x h
        rw [rounds, Function.update_self] at h
        obtain rfl := Option.some.inj h
        exact ⟨rfl, (fun h => by cases h), rfl, fun _ => rfl, rfl, (fun h => by cases h)⟩
      · intro h
        rw [rounds, Function.update_self] at h
        cases h
      · intro owner tiles stakePerTile
        have none : books.stakes (books.nextRoundId, owner) = none :=
          hi.unstaked (Nat.le_refl _) owner
        change books.stakes (books.nextRoundId, owner) = some _ ↔ _
        rw [none]
        exact ⟨fun h => (by cases h), fun h => absurd h.1 List.not_mem_nil⟩
      · have untold := hi.untold (.inr (Nat.le_refl books.nextRoundId))
        refine ⟨?_, fun {before owner reward after} split => ?_⟩
        · rw [filter_snoc_of_pos ((own _).trans (beq_self_eq_true _)), untold]
          rfl
        · rcases snoc_split split with ⟨rest, early⟩ | ⟨-, last⟩
          · have mem : Event.positionSettled books.nextRoundId owner reward ∈
                log.filter (Event.ofRound books.nextRoundId) :=
              List.mem_filter.mpr ⟨early ▸ List.mem_append_right _ (List.mem_cons_self ..),
                beq_self_eq_true _⟩
            rw [untold] at mem
            exact absurd mem List.not_mem_nil
          · cases last
    · obtain ⟨tale, fair, fits, tells⟩ := hi.told one (by omega)
      refine ⟨tale, fair, fits.same ?_ (fun _ => rfl), tells.aside (apart same)⟩
      rw [rounds, Function.update_of_ne same]

theorem writeRound_self {change : RoundBook → RoundBook} (hr : books.rounds id = some round) :
    (books.writeRound id change).rounds id = some (change round) := by
  rw [Journal.writeRound, hr, Option.map_some]
  exact Function.update_self ..

theorem writeRound_other {change : RoundBook → RoundBook} {other : Nat} (different : other ≠ id) :
    (books.writeRound id change).rounds other = books.rounds other :=
  Function.update_of_ne different ..

theorem stakes_other {stakes : Nat × Pubkey → Option (BitVec 64 × Nat)} {owner : Pubkey}
    {value : Option (BitVec 64 × Nat)} {other : Nat} (different : other ≠ id) (holder : Pubkey) :
    Function.update stakes (id, owner) value (other, holder) = stakes (other, holder) :=
  Function.update_of_ne (fun same => different (congrArg Prod.fst same)) ..

/-- A round without an outcome is still running. -/
theorem RoundTale.FitsBook.running (fits : tale.FitsBook round) (none : round.outcome = none) :
    tale.finish = .none := by
  have outcome := fits.outcome.symm.trans none
  cases h : tale.finish with
  | none => rfl
  | some finish =>
      rw [h] at outcome
      cases outcome

theorem RoundTale.FitsBook.finished (fits : tale.FitsBook round) (ended : round.outcome ≠ none) :
    ∃ finish, tale.finish = some finish ∧ round.outcome = some finish.how.outcome := by
  have outcome := fits.outcome
  cases h : tale.finish with
  | none =>
      rw [h] at outcome
      exact absurd outcome ended
  | some finish =>
      rw [h] at outcome
      exact ⟨finish, rfl, outcome⟩

theorem RoundTale.FitsBook.tileTotal (fits : tale.FitsBook round) {tile : Nat}
    (h : tile < TILE_COUNT) : round.tileTotal tile = tale.staked tile := by
  rw [RoundBook.tileTotal, dif_pos h]
  exact fits.staked ⟨tile, h⟩

/-- A stake joins the others. -/
theorem RoundTale.Fits.buy {owner : Pubkey} {tiles : BitVec 64} {stakePerTile : Nat}
    (fair : tale.Fair) (fits : tale.Fits id books) (hr : books.rounds id = some round)
    (running : round.outcome = none) (fresh : books.stakes (id, owner) = none) :
    ∃ tale' : RoundTale, tale'.Fair ∧
      tale'.Fits id (books.record (.positionBought id owner tiles stakePerTile
        (stakePerTile * countOnes tiles))) ∧
      tale'.events id = tale.events id ++
        [.positionBought id owner tiles stakePerTile (stakePerTile * countOnes tiles)] ∧
      tale'.Follows tale := by
  have book := fits.known hr
  have unfinished := book.running running
  have now : (books.record (.positionBought id owner tiles stakePerTile
      (stakePerTile * countOnes tiles))).rounds id =
        some (round.buy tiles stakePerTile (stakePerTile * countOnes tiles)) := writeRound_self hr
  have outstanding := fits.outstanding
  simp only [RoundTale.rewarded, unfinished, Option.elim_none, List.not_mem_nil, not_false_iff,
    and_true] at outstanding
  have absent : ∀ stake ∈ tale.stakes, stake.owner ≠ owner := by
    intro stake mem same
    have held := (outstanding stake.owner stake.tiles stake.stakePerTile).mpr mem
    rw [same, fresh] at held
    cases held
  refine ⟨{ tale with stakes := tale.stakes ++ [⟨owner, tiles, stakePerTile⟩] }, ⟨?_, ?_⟩,
    ⟨?_, ?_, ?_⟩, ?_, fun ended => absurd (unfinished.symm.trans ended) (by simp)⟩
  · simp only [List.map_append, List.map_cons, List.map_nil]
    refine List.nodup_append.mpr ⟨fair.distinct, List.nodup_singleton _, ?_⟩
    intro x mem y single same
    obtain ⟨stake, inside, rfl⟩ := List.mem_map.mp mem
    exact absent stake inside (same.trans (List.mem_singleton.mp single))
  · intro finish h
    have h : tale.finish = some finish := h
    rw [unfinished] at h
    cases h
  · intro after h
    obtain rfl := Option.some.inj (now.symm.trans h)
    refine ⟨book.epoch, book.unclosed, ?_, ?_, book.outcome, ?_⟩
    · rw [RoundBook.buy, RoundTale.pot, List.map_append, List.sum_append, ← Nat.add_assoc]
      exact congrArg (· + _) book.pot
    · intro tile
      rw [RoundBook.buy, RoundTale.staked, List.map_append, List.sum_append]
      change round.tileTotals tile + (if _ then _ else 0) = _
      rw [book.staked tile]
      rfl
    · intro finish h
      have h : tale.finish = some finish := h
      rw [unfinished] at h
      cases h
  · intro gone
    cases now.symm.trans gone
  · intro holder tiles' stake'
    simp only [RoundTale.rewarded, unfinished, Option.elim_none, List.not_mem_nil, not_false_iff,
      and_true, List.mem_append, List.mem_singleton, RoundStake.mk.injEq]
    by_cases same : holder = owner
    · subst same
      change Function.update books.stakes (id, holder) _ (id, holder) = _ ↔ _
      rw [Function.update_self, Option.some.injEq, Prod.mk.injEq]
      constructor
      · rintro ⟨rfl, rfl⟩
        exact .inr ⟨rfl, rfl, rfl⟩
      · rintro (mem | ⟨-, rfl, rfl⟩)
        · exact absurd rfl (absent _ mem)
        · exact ⟨rfl, rfl⟩
    · change Function.update books.stakes (id, owner) _ (id, holder) = _ ↔ _
      rw [Function.update_of_ne (fun key => same (congrArg Prod.snd key)), outstanding]
      simp only [same, false_and, or_false]
  · simp only [RoundTale.events, unfinished, Option.elim_none, List.append_nil, List.map_append,
      List.map_cons, List.map_nil, RoundStake.event, RoundStake.total, List.cons_append]

/-- A running round ends, with nothing paid yet. -/
theorem RoundTale.Fits.finish {how : RoundEnd} (fair : tale.Fair) (fits : tale.Fits id books)
    (hr : books.rounds id = some round) (running : round.outcome = none)
    (settles : tale.Settles how) (now : books'.rounds id = some round')
    (epoch : round'.epochId = round.epochId) (pot : round'.pot = round.pot)
    (staked : round'.tileTotals = round.tileTotals)
    (outcome : round'.outcome = some how.outcome) (figures : how.InBook round')
    (stakes : ∀ owner, books'.stakes (id, owner) = books.stakes (id, owner)) :
    ∃ tale' : RoundTale, tale'.Fair ∧ tale'.Fits id books' ∧
      tale'.events id = tale.events id ++ [how.event id] ∧ tale'.Follows tale := by
  have book := fits.known hr
  have unfinished := book.running running
  have outstanding := fits.outstanding
  simp only [RoundTale.rewarded, unfinished, Option.elim_none] at outstanding
  refine ⟨{ tale with finish := some ⟨how, [], false⟩ }, ⟨fair.distinct, ?_⟩, ⟨?_, ?_, ?_⟩, ?_,
    fun ended => absurd (unfinished.symm.trans ended) (by simp)⟩
  · intro finish h
    obtain rfl := Option.some.inj h
    exact ⟨settles, fun mem => absurd mem List.not_mem_nil,
      fun mem => absurd mem List.not_mem_nil, List.nodup_nil,
      fun closed => absurd closed Bool.false_ne_true⟩
  · intro after h
    obtain rfl := Option.some.inj (now.symm.trans h)
    refine ⟨epoch.trans book.epoch, ?_, pot.trans book.pot, fun tile => staked ▸ book.staked tile,
      outcome, ?_⟩
    · intro finish h
      obtain rfl := Option.some.inj h
      rfl
    · intro finish h
      obtain rfl := Option.some.inj h
      exact figures
  · intro gone
    cases now.symm.trans gone
  · intro owner tiles stakePerTile
    rw [stakes owner]
    exact outstanding owner tiles stakePerTile
  · simp only [RoundTale.events, unfinished, Option.elim_none, List.append_nil, Option.elim_some,
      RoundFinish.events, List.map_nil, Bool.false_eq_true, if_false, List.cons_append]

/-- What the books owe a stake is what its tale owes it. -/
theorem RoundTale.FitsBook.owes {finish : RoundFinish} (stake : RoundStake) (current : Nat)
    (fits : tale.FitsBook round) (fair : tale.FairFinish finish)
    (finished : tale.finish = some finish) :
    round.reward current stake.tiles stake.stakePerTile = tale.owes current stake finish.how := by
  have outcome := fits.outcome
  have figures := fits.figures finished
  have settles := fair.how
  rw [finished, Option.map_some] at outcome
  cases how : finish.how with
  | voided carryPot =>
      rw [how] at outcome
      rw [RoundTale.owes, RoundBook.reward, outcome, if_neg]
      exact fun all => absurd all.2.1 (by simp [RoundEnd.outcome])
  | settled winningTile pot forfeited houseCut =>
      rw [how] at outcome figures settles
      obtain ⟨rfl, rfl, rfl⟩ := figures
      have settled : round.outcome = some .settled ↔ forfeited = false := by
        rw [outcome]
        cases forfeited <;> simp [RoundEnd.outcome]
      rw [RoundTale.owes, RoundBook.reward, fits.epoch, fits.tileTotal settles.2.2.1]
      exact if_congr (by rw [settled]) rfl rfl

/-- A stake is closed and leaves the open ones. -/
theorem RoundTale.Fits.pay {owner : Pubkey} {tiles : BitVec 64} {stakePerTile : Nat}
    (fair : tale.Fair) (fits : tale.Fits id books) (hr : books.rounds id = some round)
    (ended : round.outcome ≠ none)
    (held : books.stakes (id, owner) = some (tiles, stakePerTile)) :
    ∃ tale' : RoundTale, tale'.Fair ∧
      tale'.Fits id (books.record (.positionSettled id owner
        (round.reward books.currentEpochId tiles stakePerTile))) ∧
      tale'.events id = tale.events id ++ [.positionSettled id owner
        (round.reward books.currentEpochId tiles stakePerTile)] ∧ tale'.Follows tale ∧
      tale'.Settled books.currentEpochId owner
        (round.reward books.currentEpochId tiles stakePerTile) := by
  have book := fits.known hr
  obtain ⟨finish, finished, outcome⟩ := book.finished ended
  have fairly := fair.finish finished
  have unclosed := book.unclosed finished
  have outstanding := fits.outstanding
  simp only [RoundTale.rewarded, finished, Option.elim_some] at outstanding
  obtain ⟨mem, unpaid⟩ := (outstanding owner tiles stakePerTile).mp held
  have figures := book.figures finished
  have owed : round.reward books.currentEpochId tiles stakePerTile =
      tale.owes books.currentEpochId ⟨owner, tiles, stakePerTile⟩ finish.how :=
    RoundTale.FitsBook.owes ⟨owner, tiles, stakePerTile⟩ _ book fairly finished
  refine ⟨{ tale with finish := some { finish with
      rewards := finish.rewards ++ [(⟨owner, tiles, stakePerTile⟩,
        round.reward books.currentEpochId tiles stakePerTile)] } },
    ⟨fair.distinct, ?_⟩, ⟨?_, ?_, ?_⟩, ?_, ?_, ?_⟩
  · intro after h
    obtain rfl := Option.some.inj h
    refine ⟨fairly.how, ?_, ?_, ?_, ?_⟩
    · intro paid inside
      rcases List.mem_append.mp inside with early | last
      · exact fairly.staked early
      · obtain rfl := List.mem_singleton.mp last
        exact mem
    · intro paid inside
      rcases List.mem_append.mp inside with early | last
      · exact fairly.owed early
      · obtain rfl := List.mem_singleton.mp last
        exact ⟨books.currentEpochId, owed⟩
    · simp only [List.map_append, List.map_cons, List.map_nil]
      refine List.nodup_append.mpr ⟨fairly.once, List.nodup_singleton _, ?_⟩
      intro x early y last same
      exact unpaid ((same.trans (List.mem_singleton.mp last)) ▸ early)
    · intro closed
      exact absurd (unclosed.symm.trans closed) Bool.false_ne_true
  · intro after h
    obtain rfl := Option.some.inj (hr.symm.trans h)
    refine ⟨book.epoch, ?_, book.pot, book.staked, ?_, ?_⟩
    · intro after h
      obtain rfl := Option.some.inj h
      exact unclosed
    · exact outcome
    · intro after h
      obtain rfl := Option.some.inj h
      exact figures
  · intro gone
    cases hr.symm.trans gone
  · intro holder tiles' stake'
    simp only [RoundTale.rewarded, Option.elim_some, List.map_append, List.map_cons,
      List.map_nil, List.mem_append, List.mem_singleton]
    by_cases same : holder = owner
    · subst same
      change Function.update books.stakes (id, holder) _ (id, holder) = _ ↔ _
      rw [Function.update_self]
      constructor
      · intro h
        cases h
      · -- Another open stake of the same owner would be the one just closed.
        rintro ⟨inside, unrewarded⟩
        exact absurd (.inr (List.inj_on_of_nodup_map fair.distinct inside mem rfl)) unrewarded
    · have apart : (⟨holder, tiles', stake'⟩ : RoundStake) ≠ ⟨owner, tiles, stakePerTile⟩ :=
        fun eq => same (congrArg RoundStake.owner eq)
      change Function.update books.stakes (id, owner) _ (id, holder) = _ ↔ _
      rw [Function.update_of_ne (fun key => same (congrArg Prod.snd key)), outstanding]
      simp only [apart, or_false]
  · simp only [RoundTale.events, finished, Option.elim_some, RoundFinish.events, unclosed,
      Bool.false_eq_true, if_false, List.append_nil, List.map_append, List.map_cons, List.map_nil,
      List.cons_append, List.append_assoc]
  · intro before ended
    obtain rfl := Option.some.inj (finished.symm.trans ended)
    exact ⟨rfl, rfl, _, rfl, rfl⟩
  · exact ⟨_, _, rfl, mem, rfl, owed⟩

/-- The round is gone once every stake on it is closed. -/
theorem RoundTale.Fits.close (fair : tale.Fair) (fits : tale.Fits id books)
    (hr : books.rounds id = some round) (ended : round.outcome ≠ none)
    (unstaked : ∀ owner, books.stakes (id, owner) = none) :
    ∃ tale' : RoundTale, tale'.Fair ∧ tale'.Fits id (books.record (.roundClosed id)) ∧
      tale'.events id = tale.events id ++ [.roundClosed id] ∧ tale'.Follows tale := by
  have book := fits.known hr
  obtain ⟨finish, finished, -⟩ := book.finished ended
  have fairly := fair.finish finished
  have outstanding := fits.outstanding
  simp only [RoundTale.rewarded, finished, Option.elim_some] at outstanding
  have now : (books.record (.roundClosed id)).rounds id = none := Function.update_self ..
  refine ⟨{ tale with finish := some { finish with closed := true } }, ⟨fair.distinct, ?_⟩,
    ⟨?_, fun _ => ⟨_, rfl, rfl⟩, ?_⟩, ?_, ?_⟩
  · intro after h
    obtain rfl := Option.some.inj h
    refine ⟨fairly.how, fairly.staked, fairly.owed, fairly.once, ?_⟩
    intro _ stake mem
    by_contra unpaid
    have held := (outstanding stake.owner stake.tiles stake.stakePerTile).mpr ⟨mem, unpaid⟩
    rw [unstaked] at held
    cases held
  · intro after h
    cases now.symm.trans h
  · exact outstanding
  · simp only [RoundTale.events, finished, Option.elim_some, RoundFinish.events,
      book.unclosed finished, Bool.false_eq_true, if_false, if_true, List.append_nil,
      List.cons_append, List.append_assoc]
  · intro before ended
    obtain rfl := Option.some.inj (finished.symm.trans ended)
    exact ⟨rfl, rfl, _, rfl, rfl⟩

/-- One more valid event keeps every tale. -/
theorem RoundsTold.next (hi : RoundsTold log books) (valid : books.Valid event) :
    RoundsTold (log ++ [event]) (books.record event) := by
  have quiet : (∀ id, event.ofRound id = false) →
      (books.record event).currentEpochId = event.epochAfter books.currentEpochId →
      (books.record event).rounds = books.rounds → (books.record event).stakes = books.stakes →
      (books.record event).nextRoundId = books.nextRoundId →
      RoundsTold (log ++ [event]) (books.record event) :=
    fun other epoch rounds stakes next => hi.quiet other epoch rounds stakes next
  cases event with
  | roundOpened roundId epochId startsAt endsAt carryIn =>
      obtain ⟨-, rfl, -, -⟩ := valid
      exact hi.opened
  | positionBought roundId owner tiles stakePerTile total =>
      obtain ⟨⟨round, hr, running⟩, fresh, rfl, -⟩ := valid
      refine hi.tell hr (fun _ => rfl) rfl (fun _ different => writeRound_other different)
        (fun _ different => stakes_other different) rfl fun fair fits => ?_
      obtain ⟨tale', fair', fits', events, follows⟩ := fits.buy fair hr running fresh
      exact ⟨tale', fair', fits', events, follows, nofun⟩
  | roundSettled roundId winningTile pot forfeited houseCut =>
      obtain ⟨round, hr, running, rfl, inside, most, nobody⟩ := valid
      refine hi.tell hr (fun _ => rfl) rfl (fun _ different => writeRound_other different)
        (fun _ _ _ => rfl) rfl fun {tale} fair fits => ?_
      have book := fits.known hr
      have settles : tale.Settles (.settled winningTile round.pot forfeited houseCut) :=
        ⟨book.pot, most, inside, by rw [nobody, book.tileTotal inside]⟩
      have now : (books.record (.roundSettled roundId winningTile round.pot forfeited
          houseCut)).rounds roundId = some (round.settle forfeited houseCut winningTile) :=
        writeRound_self hr
      obtain ⟨tale', fair', fits', events, follows⟩ := fits.finish fair hr running settles now
        rfl rfl rfl rfl ⟨rfl, rfl, rfl⟩ fun _ => rfl
      exact ⟨tale', fair', fits', events, follows, nofun⟩
  | positionSettled roundId owner reward =>
      obtain ⟨round, tiles, stakePerTile, hr, ended, held, rfl⟩ := valid
      refine hi.tell hr (fun _ => rfl) rfl (fun _ _ => rfl)
        (fun _ different => stakes_other different) rfl fun fair fits => ?_
      obtain ⟨tale', fair', fits', events, follows, settled⟩ := fits.pay fair hr ended held
      refine ⟨tale', fair', fits', events, follows, fun same => ?_⟩
      cases same
      exact settled
  | roundVoided roundId carryPot =>
      obtain ⟨round, hr, running, -⟩ := valid
      refine hi.tell hr (fun _ => rfl) rfl (fun _ different => writeRound_other different)
        (fun _ _ _ => rfl) rfl fun {tale} fair fits => ?_
      have settles : tale.Settles (.voided carryPot) := trivial
      have now : (books.record (.roundVoided roundId carryPot)).rounds roundId = some round.void :=
        writeRound_self hr
      obtain ⟨tale', fair', fits', events, follows⟩ := fits.finish fair hr running settles now
        rfl rfl rfl rfl trivial fun _ => rfl
      exact ⟨tale', fair', fits', events, follows, nofun⟩
  | roundClosed roundId =>
      obtain ⟨⟨round, hr, ended⟩, unstaked⟩ := valid
      refine hi.tell hr (fun _ => rfl) rfl (fun _ different => Function.update_of_ne different ..)
        (fun _ _ _ => rfl) rfl fun fair fits => ?_
      obtain ⟨tale', fair', fits', events, follows⟩ := fits.close fair hr ended unstaked
      exact ⟨tale', fair', fits', events, follows, nofun⟩
  | ticketsGranted owner epochId amount byAdmin =>
      cases byAdmin with
      | true => exact quiet (fun _ => rfl) rfl rfl rfl rfl
      | false => exact quiet (fun _ => rfl) rfl rfl rfl rfl
  | jackpotPaid epochId winner amount isHouse compounded =>
      cases compounded with
      | true => exact quiet (fun _ => rfl) rfl rfl rfl rfl
      | false => exact quiet (fun _ => rfl) rfl rfl rfl rfl
  | featurePaused feature paused now =>
      cases feature with
      | game => exact quiet (fun _ => rfl) rfl rfl rfl rfl
      | jackpot => exact quiet (fun _ => rfl) rfl rfl rfl rfl
  | _ => exact quiet (fun _ => rfl) rfl rfl rfl rfl

end Told

/-- Every round's events tell one fair tale: it opens once, each owner stakes on it at most once
and is closed at most once, a settlement names the pot the stakes and the carry add up to, each
reward is the share owed if the round's epoch was the last begun and nothing otherwise, and together
they never exceed the pot after the cut. -/
theorem round_events_tell {rt : Runtime} {w : World} (h : Reachable rt w) (id : Nat) :
    w.log.filter (Event.ofRound id) = [] ∨ ∃ tale : RoundTale, tale.Fair ∧ tale.Tells id w.log ∧
      ∀ {finish winningTile pot forfeited houseCut}, tale.finish = some finish →
        finish.how = .settled winningTile pot forfeited houseCut →
        (finish.rewards.map Prod.snd).sum ≤ pot - houseCut := by
  have told := (reachable_balanced h).sound.invariant roundsTold_empty fun hi valid => hi.next valid
  by_cases opened : 1 ≤ id ∧
      id < (journaling.replay Journal.empty (journaling.log w)).nextRoundId
  · obtain ⟨tale, fair, -, tells⟩ := told.told opened.1 opened.2
    exact .inr ⟨tale, fair, tells, fun finished how => (fair.finish finished).paid_le how⟩
  · exact .inl (told.untold (by omega))

/-- A round played to its end by two owners. -/
theorem round_events_tell_played : ∃ w, Reachable Demo.runtime w ∧
    (w.log.filter (Event.ofRound 1)).length = 7 ∧
    (w.log.filter (Event.ofRound 1) = [] ∨ ∃ tale : RoundTale, tale.Fair ∧ tale.Tells 1 w.log ∧
      ∀ {finish winningTile pot forfeited houseCut}, tale.finish = some finish →
        finish.how = .settled winningTile pot forfeited houseCut →
        (finish.rewards.map Prod.snd).sum ≤ pot - houseCut) := by
  let player := Demo.signer 3
  let other := Demo.signer 4
  obtain ⟨⟨history, w⟩, hrun, hcheck⟩ := exists_of_any
    (x := Demo.script [.setFeaturePause Demo.admin .jackpot false,
      .setFeaturePause Demo.admin .game false,
      .deposit player (Demo.wallet player) 100, .deposit other (Demo.wallet other) 100,
      .beginEpoch Demo.operator, .createRound Demo.operator 1000 1010,
      .buyPosition player 1 3 5, .buyPosition other 1 6 7, .wait 1008,
      .requestRoundRandomness 1 ⟨9⟩ (List.replicate 32 0),
      .settleRound 1 ⟨⟨9⟩, List.replicate 8 0 ++ [1] ++ List.replicate 128 0⟩,
      .settlePosition 1 ⟨3⟩, .settlePosition 1 ⟨4⟩, .closeRound Demo.operator.key 1])
    (p := fun r => decide ((r.2.log.filter (Event.ofRound 1)).length = 7)) (by decide +kernel)
  have reachable := (Demo.script_run hrun).reachable
  exact ⟨w, reachable, of_decide_eq_true hcheck, round_events_tell reachable 1⟩

end HexVault
