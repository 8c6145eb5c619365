import HexVault.Invariants.Accounts

/-!
A round's books against the Position accounts: its counter is the number of
Positions on it, and each tile's total covers what the Positions left on it have
staked there. So the shares a settled round still owes never exceed its pot.
-/

namespace HexVault

open Fallible Finmap

/-- One for each Position on a round. -/
def positionsOn (id : Nat) (key : Nat × Pubkey) (_ : Position) : Nat :=
  if key.1 = id then 1 else 0

/-- What a Position of a round has on a tile. -/
def stakedOn (id : Nat) (tile : Fin TILE_COUNT) (key : Nat × Pubkey) (x : Position) : Nat :=
  if key.1 = id ∧ tileIsCovered x.tiles tile = true then x.stakePerTile else 0

structure Books (rounds : Finmap fun _ : Nat => Round)
    (positions : Finmap fun _ : Nat × Pubkey => Position) : Prop where
  known : ∀ {key x}, positions.lookup key = some x → ∃ r, rounds.lookup key.1 = some r
  keyed : ∀ {key x}, positions.lookup key = some x → x.owner = key.2
  counted : ∀ {id r}, rounds.lookup id = some r →
    total (positionsOn id) positions = r.openPositions
  staked : ∀ {id r}, rounds.lookup id = some r → ∀ tile,
    total (stakedOn id tile) positions ≤ r.tileTotals tile

namespace Books
variable {rounds : Finmap fun _ : Nat => Round}
  {positions : Finmap fun _ : Nat × Pubkey => Position} {id : Nat} {owner : Pubkey}
  {r r' : Round} {x : Position}

/-- A round with no open Position has none. -/
theorem none_of_zero (hi : Books rounds positions) (h : rounds.lookup id = some r)
    (zero : r.openPositions = 0) (owner : Pubkey) : positions.lookup (id, owner) = none := by
  cases hx : positions.lookup (id, owner) with
  | none => rfl
  | some x =>
      have one := le_total (positionsOn id) hx
      have counted := hi.counted h
      simp only [positionsOn, if_true] at one
      omega

/-- No Position is on a round with none open, nor on one that does not exist. -/
theorem off_of_zero (hi : Books rounds positions) (h : rounds.lookup id = some r)
    (zero : r.openPositions = 0) {key : Nat × Pubkey} (hx : positions.lookup key = some x) :
    key.1 ≠ id := by
  intro same
  have gone := hi.none_of_zero h zero key.2
  rw [← same, hx] at gone
  exact nomatch gone

theorem off_of_none (hi : Books rounds positions) (h : rounds.lookup id = none)
    {key : Nat × Pubkey} (hx : positions.lookup key = some x) : key.1 ≠ id := by
  intro same
  obtain ⟨y, hy⟩ := hi.known hx
  rw [same, h] at hy
  exact nomatch hy

theorem create (hi : Books rounds positions) (h : rounds.lookup id = none)
    (opened : r.openPositions = 0) : Books (rounds.insert id r) positions := by
  have fresh : ∀ {key x}, positions.lookup key = some x → key.1 ≠ id := hi.off_of_none h
  refine ⟨?_, hi.keyed, ?_, ?_⟩
  · intro key x hx
    obtain ⟨y, hy⟩ := hi.known hx
    exact ⟨y, (lookup_insert_of_ne _ (fresh hx)).trans hy⟩
  · intro other y hy
    cases lookup_insert_cases hy with
    | inl same =>
        obtain ⟨rfl, rfl⟩ := same
        rw [opened]
        exact total_eq_zero fun key x hx => if_neg (fresh hx)
    | inr rest => exact hi.counted rest.2
  · intro other y hy tile
    cases lookup_insert_cases hy with
    | inl same =>
        obtain ⟨rfl, rfl⟩ := same
        have none : total (stakedOn other tile) positions = 0 :=
          total_eq_zero fun key x hx => if_neg fun both => fresh hx both.1
        rw [none]
        exact Nat.zero_le _
    | inr rest => exact hi.staked rest.2 tile

/-- A round rewritten with its books as they were. -/
theorem write (hi : Books rounds positions) (h : rounds.lookup id = some r)
    (opened : r'.openPositions = r.openPositions) (tiles : r'.tileTotals = r.tileTotals) :
    Books (rounds.insert id r') positions := by
  refine ⟨?_, hi.keyed, ?_, ?_⟩
  · intro key x hx
    obtain ⟨y, hy⟩ := hi.known hx
    by_cases same : key.1 = id
    · exact ⟨r', same ▸ lookup_insert _⟩
    · exact ⟨y, (lookup_insert_of_ne _ same).trans hy⟩
  · intro other y hy
    cases lookup_insert_cases hy with
    | inl same =>
        obtain ⟨rfl, rfl⟩ := same
        exact (hi.counted h).trans opened.symm
    | inr rest => exact hi.counted rest.2
  · intro other y hy tile
    cases lookup_insert_cases hy with
    | inl same =>
        obtain ⟨rfl, rfl⟩ := same
        rw [tiles]
        exact hi.staked h tile
    | inr rest => exact hi.staked rest.2 tile

theorem buy (hi : Books rounds positions) (h : rounds.lookup id = some r)
    (hx : positions.lookup (id, owner) = none) (owned : x.owner = owner)
    (opened : r'.openPositions = r.openPositions + 1)
    (tiles : ∀ tile, r'.tileTotals tile = r.tileTotals tile +
      if tileIsCovered x.tiles tile then x.stakePerTile else 0) :
    Books (rounds.insert id r') (positions.insert (id, owner) x) := by
  refine ⟨?_, ?_, ?_, ?_⟩
  · intro key y hy
    by_cases same : key.1 = id
    · exact ⟨r', same ▸ lookup_insert _⟩
    · cases lookup_insert_cases hy with
      | inl new => exact absurd (congrArg Prod.fst new.1) same
      | inr rest =>
          obtain ⟨z, hz⟩ := hi.known rest.2
          exact ⟨z, (lookup_insert_of_ne _ same).trans hz⟩
  · intro key y hy
    cases lookup_insert_cases hy with
    | inl new =>
        obtain ⟨rfl, rfl⟩ := new
        exact owned
    | inr rest => exact hi.keyed rest.2
  · intro other y hy
    rw [total_insert, total_erase_of_notMem _ hx]
    cases lookup_insert_cases hy with
    | inl same =>
        obtain ⟨rfl, rfl⟩ := same
        rw [hi.counted h, opened, positionsOn, if_pos rfl, Nat.add_comm]
    | inr rest =>
        rw [hi.counted rest.2, positionsOn, if_neg (Ne.symm rest.1), Nat.zero_add]
  · intro other y hy tile
    rw [total_insert, total_erase_of_notMem _ hx]
    cases lookup_insert_cases hy with
    | inl same =>
        obtain ⟨rfl, rfl⟩ := same
        have old := hi.staked h tile
        rw [tiles, stakedOn]
        simp only [true_and]
        omega
    | inr rest =>
        have other : ¬ (id = other ∧ tileIsCovered x.tiles tile = true) :=
          fun both => rest.1 both.1.symm
        rw [stakedOn, if_neg other, Nat.zero_add]
        exact hi.staked rest.2 tile

theorem settle (hi : Books rounds positions) (h : rounds.lookup id = some r)
    (hx : positions.lookup (id, owner) = some x)
    (opened : r'.openPositions = r.openPositions - 1) (tiles : r'.tileTotals = r.tileTotals) :
    Books (rounds.insert id r') (positions.erase (id, owner)) := by
  refine ⟨?_, fun hy => hi.keyed (lookup_of_erase hy), ?_, ?_⟩
  · intro key y hy
    by_cases same : key.1 = id
    · exact ⟨r', same ▸ lookup_insert _⟩
    · obtain ⟨z, hz⟩ := hi.known (lookup_of_erase hy)
      exact ⟨z, (lookup_insert_of_ne _ same).trans hz⟩
  · intro other y hy
    have split := total_erase (positionsOn other) hx
    cases lookup_insert_cases hy with
    | inl same =>
        obtain ⟨rfl, rfl⟩ := same
        rw [hi.counted h, positionsOn, if_pos rfl] at split
        omega
    | inr rest =>
        rw [hi.counted rest.2, positionsOn, if_neg (Ne.symm rest.1), Nat.zero_add] at split
        exact split.symm
  · intro other y hy tile
    have split := total_erase (stakedOn other tile) hx
    cases lookup_insert_cases hy with
    | inl same =>
        obtain ⟨rfl, rfl⟩ := same
        have old := hi.staked h tile
        rw [tiles]
        omega
    | inr rest =>
        have old := hi.staked rest.2 tile
        omega

theorem close (hi : Books rounds positions) (h : rounds.lookup id = some r)
    (zero : r.openPositions = 0) : Books (rounds.erase id) positions := by
  refine ⟨?_, hi.keyed, fun hy => hi.counted (lookup_of_erase hy),
    fun hy => hi.staked (lookup_of_erase hy)⟩
  intro key x hx
  obtain ⟨y, hy⟩ := hi.known hx
  exact ⟨y, (lookup_erase_ne (hi.off_of_zero h zero hx)).trans hy⟩

end Books

/-- A figure of a Position that depends on its round, none where the round is gone. -/
def onRound (g : Round → Position → Nat) (rounds : Finmap fun _ : Nat => Round)
    (key : Nat × Pubkey) (x : Position) : Nat :=
  (rounds.lookup key.1).elim 0 fun r => g r x

/-- A figure of the Positions on one round. -/
def onlyOn (id : Nat) (f : Position → Nat) (key : Nat × Pubkey) (x : Position) : Nat :=
  if key.1 = id then f x else 0

section OnRound
variable {rounds : Finmap fun _ : Nat => Round}
  {positions : Finmap fun _ : Nat × Pubkey => Position} {id : Nat} {owner : Pubkey}
  {r r' : Round} {x : Position} (g : Round → Position → Nat)

theorem onRound_insert (rounds : Finmap fun _ : Nat => Round) (id : Nat) (r' : Round)
    (key : Nat × Pubkey) (x : Position) : onRound g (rounds.insert id r') key x =
      if key.1 = id then g r' x else onRound g rounds key x := by
  by_cases same : key.1 = id
  · rw [onRound, same, lookup_insert, if_pos rfl, Option.elim_some]
  · rw [onRound, lookup_insert_of_ne _ same, if_neg same, onRound]

theorem onRound_of_lookup (h : rounds.lookup id = some r) :
    onRound g rounds (id, owner) x = g r x := by
  rw [onRound, h, Option.elim_some]

theorem onRound_create (hi : Books rounds positions) (h : rounds.lookup id = none) :
    total (onRound g (rounds.insert id r)) positions = total (onRound g rounds) positions := by
  refine total_congr ?_
  intro key x hx
  rw [onRound_insert, if_neg (hi.off_of_none h hx)]

/-- A round rewritten moves the figures of its own Positions only. -/
theorem onRound_write (h : rounds.lookup id = some r) (r' : Round)
    (positions : Finmap fun _ : Nat × Pubkey => Position) :
    total (onRound g (rounds.insert id r')) positions + total (onlyOn id (g r)) positions =
      total (onRound g rounds) positions + total (onlyOn id (g r')) positions := by
  rw [← total_add, ← total_add]
  refine total_congr ?_
  intro key x _
  rw [onRound_insert, onlyOn, onlyOn]
  by_cases same : key.1 = id
  · rw [if_pos same, if_pos same, if_pos same, onRound, same, h, Option.elim_some, Nat.add_comm]
  · rw [if_neg same, if_neg same, if_neg same]

theorem onRound_same (h : rounds.lookup id = some r) (same : ∀ x, g r' x = g r x) :
    total (onRound g (rounds.insert id r')) positions = total (onRound g rounds) positions := by
  refine total_congr ?_
  intro key x _
  rw [onRound_insert]
  by_cases on : key.1 = id
  · rw [if_pos on, same, onRound, on, h, Option.elim_some]
  · rw [if_neg on]

theorem onRound_buy (h : rounds.lookup id = some r) (hx : positions.lookup (id, owner) = none)
    (same : ∀ x, g r' x = g r x) :
    total (onRound g (rounds.insert id r')) (positions.insert (id, owner) x) =
      g r x + total (onRound g rounds) positions := by
  rw [total_insert, total_erase_of_notMem _ hx, onRound_same g h same, onRound_insert,
    if_pos rfl, same]

theorem onRound_settle (h : rounds.lookup id = some r)
    (hx : positions.lookup (id, owner) = some x) (same : ∀ x, g r' x = g r x) :
    g r x + total (onRound g (rounds.insert id r')) (positions.erase (id, owner)) =
      total (onRound g rounds) positions := by
  rw [onRound_same g h same, total_erase (onRound g rounds) hx, onRound_of_lookup g h]

/-- A Position that counted for nothing is settled. -/
theorem onRound_settle_zero (h : rounds.lookup id = some r)
    (hx : positions.lookup (id, owner) = some x) (same : ∀ x, g r' x = g r x)
    (zero : g r x = 0) :
    total (onRound g (rounds.insert id r')) (positions.erase (id, owner)) =
      total (onRound g rounds) positions := by
  rw [← onRound_settle g h hx same, zero, Nat.zero_add]

theorem onRound_close (hi : Books rounds positions) (h : rounds.lookup id = some r)
    (zero : r.openPositions = 0) :
    total (onRound g (rounds.erase id)) positions = total (onRound g rounds) positions := by
  refine total_congr ?_
  intro key x hx
  rw [onRound, onRound, lookup_erase_ne (hi.off_of_zero h zero hx)]

/-- A round with no open Position has nothing on it. -/
theorem onlyOn_zero (hi : Books rounds positions) (h : rounds.lookup id = some r)
    (zero : r.openPositions = 0) (f : Position → Nat) : total (onlyOn id f) positions = 0 := by
  exact total_eq_zero fun key x hx => if_neg (hi.off_of_zero h zero hx)

theorem onRound_mono {g' : Round → Position → Nat} (le : ∀ r x, g r x ≤ g' r x) :
    total (onRound g rounds) positions ≤ total (onRound g' rounds) positions := by
  refine total_mono ?_
  intro key x _
  rw [onRound, onRound]
  cases rounds.lookup key.1 with
  | none => exact Nat.le_refl _
  | some r => exact le r x

theorem onRound_eq_zero (zero : ∀ id r, rounds.lookup id = some r → ∀ x, g r x = 0) :
    total (onRound g rounds) positions = 0 := by
  refine total_eq_zero ?_
  intro key x _
  cases hr : rounds.lookup key.1 with
  | none => rw [onRound, hr, Option.elim_none]
  | some r => rw [onRound, hr, Option.elim_some, zero key.1 r hr x]

end OnRound

def World.Books (w : World) : Prop := HexVault.Books w.rounds w.positions

theorem effect_books {rt : Runtime} {w w' : World} {a : Action} (h : Effect rt w a w')
    (hi : w.Books) : w'.Books := by
  cases h with
  | roundCreated hnew => exact Books.create hi hnew rfl
  | positionBought _ hr hx => exact Books.buy hi hr hx rfl rfl fun _ => rfl
  | roundRequested hr => exact Books.write hi hr rfl rfl
  | roundSettled hr => exact Books.write hi hr rfl rfl
  | positionSettled hr _ hx => exact Books.settle hi hr hx rfl rfl
  | roundVoided hr => exact Books.write hi hr rfl rfl
  | roundClosed hr _ zero => exact Books.close hi hr zero
  | _ => exact hi

theorem reachable_books {rt : Runtime} {w : World} (h : Reachable rt w) : w.Books := by
  refine h.invariant (P := fun w => w.Books) ?_ fun _ hi hs => effect_books (step_effect hs) hi
  intro start created
  refine ⟨?_, ?_, ?_, ?_⟩
  · intro key x hx
    exact absurd hx (created_no_position created)
  · intro key x hx
    exact absurd hx (created_no_position created)
  · intro id r hr
    exact absurd hr (created_no_round created)
  · intro id r hr
    exact absurd hr (created_no_round created)

/-- A Position's owner has an account, and is not the House. -/
theorem reachable_holders {rt : Runtime} {w : World} (h : Reachable rt w) :
    ∀ key x, w.positions.lookup key = some x →
      ∃ p, w.players.lookup key.2 = some p ∧ p.isHouse = false := by
  refine h.invariant (P := fun w => ∀ key x, w.positions.lookup key = some x →
    ∃ p, w.players.lookup key.2 = some p ∧ p.isHouse = false) ?_ ?_
  · intro start created key x hx
    exact absurd hx (created_no_position created)
  · intro w a w' before hi hs
    have kept : ∀ {owner}, (∃ p, w.players.lookup owner = some p ∧ p.isHouse = false) →
        ∃ r, w'.players.lookup owner = some r ∧ r.isHouse = false := by
      intro owner held
      obtain ⟨p, hp, flag⟩ := held
      obtain ⟨r, hr, same⟩ := step_player_kept before hs hp
      exact ⟨r, hr, same.trans flag⟩
    cases step_effect hs with
    | positionBought _ _ _ _ player =>
        intro key x hx
        cases lookup_insert_cases hx with
        | inl new =>
            obtain ⟨rfl, -⟩ := new
            exact ⟨_, lookup_insert _, player⟩
        | inr old => exact kept (hi key x old.2)
    | positionSettled => exact fun key x hx => kept (hi key x (lookup_of_erase hx))
    | _ => exact fun key x hx => kept (hi key x hx)

end HexVault
