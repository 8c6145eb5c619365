import HexVault.Program.Randomness

/-!
The addresses of the program's accounts. The program, the backend and the app derive each from the
same seeds: the account's kind, the address it belongs to and its number or owner. Were two accounts
to share one, two of the byte strings hashed on the way to them would collide.
-/

namespace HexVault

namespace Addresses

/-- A public key as its 32 bytes. -/
structure Key where
  bytes : Bytes
  length : bytes.length = 32
  deriving DecidableEq

theorem Key.ext_bytes {k l : Key} (h : k.bytes = l.bytes) : k = l := by
  cases k
  cases l
  obtain rfl := h
  rfl

/-- What the runtime hashes with, and the program the addresses are derived for. -/
structure Derivation where
  digest : Bytes → Key
  onCurve : Key → Bool
  programId : Key

def MARKER : Bytes := "ProgramDerivedAddress".toUTF8.toList

def SEED_POOL : Bytes := "pool".toUTF8.toList
def SEED_PRINCIPAL : Bytes := "principal".toUTF8.toList
def SEED_JACKPOT : Bytes := "jackpot".toUTF8.toList
def SEED_EPOCH : Bytes := "epoch".toUTF8.toList
def SEED_ROUND : Bytes := "round".toUTF8.toList
def SEED_PLAYER : Bytes := "player".toUTF8.toList
def SEED_POSITION : Bytes := "position".toUTF8.toList

def leU64 (value : UInt64) : Bytes := leBytes 8 value.toNat

section Derive
variable (d : Derivation)

def message (seeds : List Bytes) (bump : UInt8) : Bytes :=
  seeds.flatten ++ [bump] ++ d.programId.bytes ++ MARKER

/-- The first bump from 255 down to 1 whose digest is no point of the curve. -/
def findProgramAddress (seeds : List Bytes) : Option (Key × UInt8) :=
  (List.range 255).findSome? fun i =>
    let bump := UInt8.ofNat (255 - i)
    let key := d.digest (message d seeds bump)
    if d.onCurve key then none else some (key, bump)

def pda (seeds : List Bytes) : Option Key := (findProgramAddress d seeds).map Prod.fst

def poolAddress (poolId : UInt64) : Option Key := pda d [SEED_POOL, leU64 poolId]

def epochAddress (pool : Key) (epochId : UInt64) : Option Key :=
  pda d [SEED_EPOCH, pool.bytes, leU64 epochId]

def roundAddress (pool : Key) (roundId : UInt64) : Option Key :=
  pda d [SEED_ROUND, pool.bytes, leU64 roundId]

def playerAddress (pool owner : Key) : Option Key := pda d [SEED_PLAYER, pool.bytes, owner.bytes]

def positionAddress (round owner : Key) : Option Key :=
  pda d [SEED_POSITION, round.bytes, owner.bytes]

def principalVaultAddress (pool : Key) : Option Key := pda d [SEED_PRINCIPAL, pool.bytes]

def jackpotVaultAddress (pool : Key) : Option Key := pda d [SEED_JACKPOT, pool.bytes]

end Derive

/-- The accounts of the program, each by what it is. -/
inductive Account where
  | pool (poolId : UInt64)
  | principalVault (poolId : UInt64)
  | jackpotVault (poolId : UInt64)
  | epoch (poolId epochId : UInt64)
  | round (poolId roundId : UInt64)
  | player (poolId : UInt64) (owner : Key)
  | position (poolId roundId : UInt64) (owner : Key)
  deriving DecidableEq

/-- One account's seeds, once the address it belongs to is known. -/
inductive Seeds where
  | pool (poolId : UInt64)
  | principalVault (pool : Key)
  | jackpotVault (pool : Key)
  | epoch (pool : Key) (epochId : UInt64)
  | round (pool : Key) (roundId : UInt64)
  | player (pool owner : Key)
  | position (round owner : Key)

def Seeds.parts : Seeds → List Bytes
  | .pool poolId => [SEED_POOL, leU64 poolId]
  | .principalVault base => [SEED_PRINCIPAL, base.bytes]
  | .jackpotVault base => [SEED_JACKPOT, base.bytes]
  | .epoch base epochId => [SEED_EPOCH, base.bytes, leU64 epochId]
  | .round base roundId => [SEED_ROUND, base.bytes, leU64 roundId]
  | .player base owner => [SEED_PLAYER, base.bytes, owner.bytes]
  | .position base owner => [SEED_POSITION, base.bytes, owner.bytes]

section Accounts
variable (d : Derivation)

def Account.seeds : Account → Option Seeds
  | .pool poolId => some (.pool poolId)
  | .principalVault poolId => (poolAddress d poolId).map .principalVault
  | .jackpotVault poolId => (poolAddress d poolId).map .jackpotVault
  | .epoch poolId epochId => (poolAddress d poolId).map fun base => .epoch base epochId
  | .round poolId roundId => (poolAddress d poolId).map fun base => .round base roundId
  | .player poolId owner => (poolAddress d poolId).map fun base => .player base owner
  | .position poolId roundId owner => do
      let pool ← poolAddress d poolId
      let round ← roundAddress d pool roundId
      return .position round owner

def Account.address (account : Account) : Option Key := do
  let seeds ← account.seeds d
  pda d seeds.parts

/-- The account whose address is among an account's seeds. -/
def Account.base : Account → Option Account
  | .pool _ => none
  | .principalVault poolId | .jackpotVault poolId | .epoch poolId _ | .round poolId _ |
    .player poolId _ => some (.pool poolId)
  | .position poolId roundId _ => some (.round poolId roundId)

/-- What is hashed for an account's own address. -/
def Account.message (account : Account) : Option Bytes := do
  let seeds ← account.seeds d
  let found ← findProgramAddress d seeds.parts
  return Addresses.message d seeds.parts found.2

/-- What is hashed on the way to an account's address. -/
def Account.messages (account : Account) : List Bytes :=
  (message d account).toList ++ account.base.elim [] fun base =>
    (message d base).toList ++ base.base.elim [] fun pool => (message d pool).toList

/-- No two different strings hashed on the way to two accounts have one digest. -/
def Account.Apart (a b : Account) : Prop :=
  ∀ m ∈ a.messages d, ∀ m' ∈ b.messages d, d.digest m = d.digest m' → m = m'

end Accounts

section Encoding

theorem leBytes_length (width value : Nat) : (leBytes width value).length = width := by
  rw [leBytes, List.length_map, List.length_range]

theorem leBytes_succ (width value : Nat) :
    leBytes (width + 1) value = UInt8.ofNat (value % 256) :: leBytes width (value / 256) := by
  rw [leBytes, List.range_succ_eq_map, List.map_cons, List.map_map, leBytes]
  refine congrArg₂ List.cons (by simp) (List.map_congr_left fun i _ => ?_)
  simp only [Function.comp_apply, Nat.pow_succ', Nat.div_div_eq_div_mul]

theorem fromLeBytes_leBytes (width value : Nat) :
    fromLeBytes (leBytes width value) = value % 256 ^ width := by
  induction width generalizing value with
  | zero => simp [leBytes, fromLeBytes, Nat.mod_one]
  | succ width ih =>
      rw [leBytes_succ, fromLeBytes, List.foldr_cons, ← fromLeBytes, ih, Nat.pow_succ',
        Nat.mod_mul]
      simp

theorem leU64_injective {a b : UInt64} (h : leU64 a = leU64 b) : a = b := by
  have same := congrArg fromLeBytes h
  rw [leU64, leU64, fromLeBytes_leBytes, fromLeBytes_leBytes] at same
  exact UInt64.toNat_inj.mp
    ((Nat.mod_eq_of_lt a.toNat_lt).symm.trans (same.trans (Nat.mod_eq_of_lt b.toNat_lt)))

theorem leU64_length (a : UInt64) : (leU64 a).length = 8 := leBytes_length 8 _

def Seeds.size : Seeds → Nat
  | .pool _ => 12
  | .principalVault _ => 41
  | .jackpotVault _ => 39
  | .epoch .. => 45
  | .round .. => 45
  | .player .. => 70
  | .position .. => 72

theorem seed_lengths : SEED_POOL.length = 4 ∧ SEED_PRINCIPAL.length = 9 ∧
    SEED_JACKPOT.length = 7 ∧ SEED_EPOCH.length = 5 ∧ SEED_ROUND.length = 5 ∧
    SEED_PLAYER.length = 6 ∧ SEED_POSITION.length = 8 := by decide +kernel

theorem Seeds.length_parts (s : Seeds) : s.parts.flatten.length = s.size := by
  obtain ⟨pool, principal, jackpot, epoch, round, player, position⟩ := seed_lengths
  cases s with
  | pool | principalVault | jackpotVault | epoch | round | player | position =>
      simp [parts, size, Key.length, leU64_length, *]

/-- Two seeds of one kind: what follows the kind's name is the same. -/
theorem pair_injective {seed a b c d : Bytes} (length : a.length = c.length)
    (h : [seed, a, b].flatten = [seed, c, d].flatten) : a = c ∧ b = d := by
  simp only [List.flatten_cons, List.flatten_nil, List.append_nil] at h
  exact List.append_inj (List.append_cancel_left h) length

theorem key_injective {seed : Bytes} {k l : Key}
    (h : [seed, k.bytes].flatten = [seed, l.bytes].flatten) : k = l := by
  simp only [List.flatten_cons, List.flatten_nil, List.append_nil] at h
  exact Key.ext_bytes (List.append_cancel_left h)

theorem Key.same_length (k l : Key) : k.bytes.length = l.bytes.length :=
  k.length.trans l.length.symm

/-- An Epoch's seeds and a Round's are as long, and begin differently. -/
theorem epoch_ne_round {k l : Key} {i j : UInt64} :
    (Seeds.epoch k i).parts.flatten ≠ (Seeds.round l j).parts.flatten := by
  intro h
  obtain ⟨-, -, -, epoch, round, -⟩ := seed_lengths
  simp only [Seeds.parts, List.flatten_cons] at h
  have names := (List.append_inj h (epoch.trans round.symm)).1
  exact absurd names (by decide +kernel)

/-- The seeds, one after the other, tell which they are. -/
theorem Seeds.parts_injective {s t : Seeds} (h : s.parts.flatten = t.parts.flatten) : s = t := by
  have sizes : s.size = t.size := by rw [← s.length_parts, ← t.length_parts, h]
  cases s with
  | pool i =>
      cases t with
      | pool j =>
          simp only [parts, List.flatten_cons, List.flatten_nil, List.append_nil] at h
          rw [leU64_injective (List.append_cancel_left h)]
      | _ => cases sizes
  | principalVault k =>
      cases t with
      | principalVault l => rw [key_injective h]
      | _ => cases sizes
  | jackpotVault k =>
      cases t with
      | jackpotVault l => rw [key_injective h]
      | _ => cases sizes
  | epoch k i =>
      cases t with
      | epoch l j =>
          obtain ⟨keys, ids⟩ := pair_injective (k.same_length l) h
          rw [Key.ext_bytes keys, leU64_injective ids]
      | round l j => exact absurd h epoch_ne_round
      | _ => cases sizes
  | round k i =>
      cases t with
      | round l j =>
          obtain ⟨keys, ids⟩ := pair_injective (k.same_length l) h
          rw [Key.ext_bytes keys, leU64_injective ids]
      | epoch l j => exact absurd h.symm epoch_ne_round
      | _ => cases sizes
  | player k owner =>
      cases t with
      | player l other =>
          obtain ⟨keys, owners⟩ := pair_injective (k.same_length l) h
          rw [Key.ext_bytes keys, Key.ext_bytes owners]
      | _ => cases sizes
  | position k owner =>
      cases t with
      | position l other =>
          obtain ⟨keys, owners⟩ := pair_injective (k.same_length l) h
          rw [Key.ext_bytes keys, Key.ext_bytes owners]
      | _ => cases sizes

end Encoding

section Collisions
variable {d : Derivation} {s t : Seeds} {key : Key} {a b : Account}

theorem findProgramAddress_digest {seeds : List Bytes} {bump : UInt8}
    (h : findProgramAddress d seeds = some (key, bump)) :
    d.digest (message d seeds bump) = key := by
  obtain ⟨i, -, found⟩ := List.exists_of_findSome?_eq_some h
  simp only at found
  split at found
  · cases found
  · obtain ⟨rfl, rfl⟩ := Prod.mk.inj (Option.some.inj found)
    rfl

/-- A message tells its seeds: the bump, the program and the marker have fixed lengths. -/
theorem message_injective {bump bump' : UInt8}
    (h : message d s.parts bump = message d t.parts bump') : s = t := by
  simp only [message, List.append_assoc] at h
  have lengths : s.parts.flatten.length = t.parts.flatten.length := by
    have lengths := congrArg List.length h
    simp only [List.length_append, List.length_cons, List.length_nil] at lengths
    omega
  exact Seeds.parts_injective (List.append_inj h lengths).1

/-- Seeds derived to one address without a collision are the same. -/
theorem pda_injective (hs : pda d s.parts = some key) (ht : pda d t.parts = some key)
    (apart : ∀ found found', findProgramAddress d s.parts = some found →
      findProgramAddress d t.parts = some found' →
      d.digest (message d s.parts found.2) = d.digest (message d t.parts found'.2) →
      message d s.parts found.2 = message d t.parts found'.2) : s = t := by
  obtain ⟨⟨key, bump⟩, found, rfl⟩ := Option.map_eq_some_iff.mp hs
  obtain ⟨⟨key', bump'⟩, found', same⟩ := Option.map_eq_some_iff.mp ht
  obtain rfl : key' = key := same
  have digests := (findProgramAddress_digest found).trans (findProgramAddress_digest found').symm
  exact message_injective (apart _ _ found found' digests)

/-- Two accounts at one address have the same seeds. -/
theorem Account.seeds_of_address (ha : a.address d = some key) (hb : b.address d = some key)
    (apart : ∀ m ∈ a.message d, ∀ m' ∈ b.message d, d.digest m = d.digest m' → m = m') :
    ∃ s, a.seeds d = some s ∧ b.seeds d = some s := by
  obtain ⟨s, hs, ps⟩ := Option.bind_eq_some_iff.mp ha
  obtain ⟨t, ht, pt⟩ := Option.bind_eq_some_iff.mp hb
  refine ⟨s, hs, ?_⟩
  have same : s = t := by
    refine pda_injective ps pt fun found found' hf hf' digests => ?_
    refine apart _ ?_ _ ?_ digests
    · simp [message, hs, hf]
    · simp [message, ht, hf']
  rw [same]
  exact ht

theorem Account.pool_injective {i j : UInt64} (hi : poolAddress d i = some key)
    (hj : poolAddress d j = some key)
    (apart : ∀ m ∈ (pool i).message d, ∀ m' ∈ (pool j).message d,
      d.digest m = d.digest m' → m = m') : i = j := by
  obtain ⟨s, hs, ht⟩ := seeds_of_address (a := .pool i) (b := .pool j) hi hj apart
  exact Seeds.pool.inj (Option.some.inj (hs.trans ht.symm))

theorem Account.mem_messages {m : Bytes} (h : m ∈ a.message d) : m ∈ a.messages d :=
  List.mem_append_left _ (Option.mem_toList.mpr h)

theorem Account.mem_messages_base {base : Account} {m : Bytes} (hb : a.base = some base)
    (h : m ∈ base.message d) : m ∈ a.messages d := by
  refine List.mem_append_right _ ?_
  rw [hb]
  exact List.mem_append_left _ (Option.mem_toList.mpr h)

theorem Account.mem_messages_pool {base pool : Account} {m : Bytes} (hb : a.base = some base)
    (hp : base.base = some pool) (h : m ∈ pool.message d) : m ∈ a.messages d := by
  refine List.mem_append_right _ ?_
  rw [hb]
  refine List.mem_append_right _ ?_
  rw [hp]
  exact Option.mem_toList.mpr h

/-- Two accounts of pools whose addresses are the same belong to the same pool. -/
theorem Account.Apart.pool {i j : UInt64} (apart : Account.Apart d a b)
    (ha : a.base = some (.pool i)) (hb : b.base = some (.pool j)) {base : Key}
    (hi : poolAddress d i = some base) (hj : poolAddress d j = some base) : i = j :=
  pool_injective hi hj fun m hm m' hm' =>
    apart m (mem_messages_base ha hm) m' (mem_messages_base hb hm')

theorem Account.round_injective {i j p q : UInt64} {poolKey poolKey' base : Key}
    (hi : poolAddress d i = some poolKey) (hj : poolAddress d j = some poolKey')
    (hp : roundAddress d poolKey p = some base) (hq : roundAddress d poolKey' q = some base)
    (own : ∀ m ∈ (round i p).message d, ∀ m' ∈ (round j q).message d,
      d.digest m = d.digest m' → m = m')
    (pools : ∀ m ∈ (pool i).message d, ∀ m' ∈ (pool j).message d,
      d.digest m = d.digest m' → m = m') : i = j ∧ p = q := by
  have ha : (round i p).address d = some base := by
    rw [address, seeds, hi]
    exact hp
  have hb : (round j q).address d = some base := by
    rw [address, seeds, hj]
    exact hq
  obtain ⟨s, hs, ht⟩ := seeds_of_address ha hb own
  simp only [seeds, hi, hj, Option.map_some, Option.some.injEq] at hs ht
  obtain ⟨rfl, rfl⟩ := Seeds.round.inj (hs.trans ht.symm)
  exact ⟨pool_injective hi hj pools, rfl⟩

/-- An account and its seeds are of one kind. -/
theorem Account.ctorIdx_of_seeds (h : a.seeds d = some s) : s.ctorIdx = a.ctorIdx := by
  cases a with
  | pool =>
      obtain rfl := Option.some.inj h
      rfl
  | principalVault | jackpotVault | epoch | round | player =>
      obtain ⟨_, -, rfl⟩ := Option.map_eq_some_iff.mp h
      rfl
  | position =>
      obtain ⟨_, -, h⟩ := Option.bind_eq_some_iff.mp h
      obtain ⟨_, -, h⟩ := Option.bind_eq_some_iff.mp h
      obtain rfl := Option.some.inj h
      rfl

theorem address_eq (ha : a.address d = some key) (hb : b.address d = some key)
    (apart : Account.Apart d a b) : a = b := by
  obtain ⟨s, hs, ht⟩ := Account.seeds_of_address ha hb fun m hm m' hm' =>
    apart m (Account.mem_messages hm) m' (Account.mem_messages hm')
  have kinds : a.ctorIdx = b.ctorIdx :=
    (Account.ctorIdx_of_seeds hs).symm.trans (Account.ctorIdx_of_seeds ht)
  cases a with
  | pool i =>
      cases b with
      | pool j => rw [Seeds.pool.inj (Option.some.inj (hs.trans ht.symm))]
      | _ => cases kinds
  | principalVault i =>
      cases b with
      | principalVault j =>
          obtain ⟨base, hi, rfl⟩ := Option.map_eq_some_iff.mp hs
          obtain ⟨base', hj, same⟩ := Option.map_eq_some_iff.mp ht
          obtain rfl := Seeds.principalVault.inj same
          rw [apart.pool rfl rfl hi hj]
      | _ => cases kinds
  | jackpotVault i =>
      cases b with
      | jackpotVault j =>
          obtain ⟨base, hi, rfl⟩ := Option.map_eq_some_iff.mp hs
          obtain ⟨base', hj, same⟩ := Option.map_eq_some_iff.mp ht
          obtain rfl := Seeds.jackpotVault.inj same
          rw [apart.pool rfl rfl hi hj]
      | _ => cases kinds
  | epoch i n =>
      cases b with
      | epoch j m =>
          obtain ⟨base, hi, rfl⟩ := Option.map_eq_some_iff.mp hs
          obtain ⟨base', hj, same⟩ := Option.map_eq_some_iff.mp ht
          obtain ⟨rfl, rfl⟩ := Seeds.epoch.inj same
          rw [apart.pool rfl rfl hi hj]
      | _ => cases kinds
  | round i n =>
      cases b with
      | round j m =>
          obtain ⟨base, hi, rfl⟩ := Option.map_eq_some_iff.mp hs
          obtain ⟨base', hj, same⟩ := Option.map_eq_some_iff.mp ht
          obtain ⟨rfl, rfl⟩ := Seeds.round.inj same
          rw [apart.pool rfl rfl hi hj]
      | _ => cases kinds
  | player i owner =>
      cases b with
      | player j other =>
          obtain ⟨base, hi, rfl⟩ := Option.map_eq_some_iff.mp hs
          obtain ⟨base', hj, same⟩ := Option.map_eq_some_iff.mp ht
          obtain ⟨rfl, rfl⟩ := Seeds.player.inj same
          rw [apart.pool rfl rfl hi hj]
      | _ => cases kinds
  | position i n owner =>
      cases b with
      | position j m other =>
          obtain ⟨pool, hi, hs⟩ := Option.bind_eq_some_iff.mp hs
          obtain ⟨round, hn, hs⟩ := Option.bind_eq_some_iff.mp hs
          obtain rfl := Option.some.inj hs
          obtain ⟨pool', hj, ht⟩ := Option.bind_eq_some_iff.mp ht
          obtain ⟨round', hm, ht⟩ := Option.bind_eq_some_iff.mp ht
          obtain ⟨rfl, rfl⟩ := Seeds.position.inj (Option.some.inj ht)
          have same := Account.round_injective hi hj hn hm
            (fun m hm m' hm' => apart m (Account.mem_messages_base rfl hm) m'
              (Account.mem_messages_base rfl hm'))
            (fun m hm m' hm' => apart m (Account.mem_messages_pool rfl rfl hm) m'
              (Account.mem_messages_pool rfl rfl hm'))
          rw [same.1, same.2]
      | _ => cases kinds

/-- Were two accounts of the program to share an address, two different strings hashed on the way
to them would have one digest. -/
theorem shared_address_collides (ha : a.address d = some key) (hb : b.address d = some key)
    (distinct : a ≠ b) :
    ∃ m ∈ a.messages d, ∃ m' ∈ b.messages d, m ≠ m' ∧ d.digest m = d.digest m' := by
  by_contra none
  refine distinct (address_eq ha hb fun m hm m' hm' digests => ?_)
  by_contra different
  exact none ⟨m, hm, m', hm', different, digests⟩

end Collisions

/-- With a digest that tells nothing apart, an Epoch and a Round share their address. -/
theorem shared_address_collides_constant : ∃ (d : Derivation) (key : Key),
    (Account.epoch 1 5).address d = some key ∧ (Account.round 1 5).address d = some key ∧
      ∃ m ∈ (Account.epoch 1 5).messages d, ∃ m' ∈ (Account.round 1 5).messages d,
        m ≠ m' ∧ d.digest m = d.digest m' := by
  let zero : Key := ⟨List.replicate 32 0, rfl⟩
  let d : Derivation := ⟨fun _ => zero, fun _ => false, zero⟩
  have ha : (Account.epoch 1 5).address d = some zero := rfl
  have hb : (Account.round 1 5).address d = some zero := rfl
  exact ⟨d, zero, ha, hb, shared_address_collides ha hb (by decide)⟩

end Addresses

end HexVault
