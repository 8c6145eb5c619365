import HexVault.Operator.Permutation

/-!
The operator's Keccak is Keccak-256: its padded bytes are the padded bits, its lanes are read and
written as the bits of the sponge, and so the seed it derives is the program's.
-/

namespace HexVault

namespace Vrf

open Keccak

section Bytes

/-- A little-endian number has the bits of its bytes. -/
theorem fromLeBytes_testBit (bytes : Bytes) (i : Nat) :
    (fromLeBytes bytes).testBit i = (bitsOf bytes).getD i false := by
  induction bytes generalizing i with
  | nil => simp [fromLeBytes, bitsOf]
  | cons byte rest ih =>
      have number : fromLeBytes (byte :: rest) = 2 ^ 8 * fromLeBytes rest + byte.toNat :=
        Nat.add_comm ..
      rw [number, Nat.testBit_two_pow_mul_add _ byte.toNat_lt, bitsOf_cons]
      split
      · next small =>
          rw [List.getD_append _ _ _ _ (by simpa using small)]
          simp [small]
      · next large =>
          rw [ih, List.getD_append_right _ _ _ _ (by simpa using large), List.length_map,
            List.length_range]

/-- The bits of the eight bytes a word is written as. -/
theorem bitsOf_leBytes (word : BitVec 64) :
    bitsOf (leBytes 8 word.toNat) = (List.finRange 64).map fun z : Fin 64 => word.getLsbD z := by
  have byte (k i : Nat) (small : i < 8) :
      (UInt8.ofNat (word.toNat / 256 ^ k % 256)).toNat.testBit i =
        word.getLsbD (8 * k + i) := by
    have power : 256 ^ k = 2 ^ (8 * k) := by
      rw [Nat.pow_mul]
    rw [UInt8.toNat_ofNat', Nat.mod_mod, power, ← Nat.shiftRight_eq_div_pow]
    change (word.toNat >>> (8 * k) % 2 ^ 8).testBit i = word.toNat.testBit (8 * k + i)
    rw [Nat.testBit_mod_two_pow, decide_eq_true small, Bool.true_and, Nat.testBit_shiftRight]
  have places : (List.range 8).flatMap (fun k => (List.range 8).map fun i => 8 * k + i) =
      (List.finRange 64).map Fin.val := by decide
  have all : (List.finRange 64).map (fun z : Fin 64 => word.getLsbD z) =
      ((List.finRange 64).map Fin.val).map word.getLsbD := by
    rw [List.map_map]
    rfl
  rw [all, ← places, List.map_flatMap, leBytes, bitsOf, List.flatMap_map]
  refine List.flatMap_congr fun k _ => ?_
  rw [List.map_map]
  exact List.map_congr_left fun i mem => byte k i (List.mem_range.mp mem)

/-- The bytes that fill up a block: a mark at the start and one at the end, in one byte where there
is only one. -/
def suffix : Nat → Bytes
  | 0 => []
  | 1 => [0x81]
  | free + 2 => 0x01 :: (List.replicate free 0 ++ [0x80])

/-- What is left of the last block. -/
def free (length : Nat) : Nat := RATE - length % RATE

theorem free_pos (length : Nat) : 0 < free length := by
  have small : length % RATE < RATE := Nat.mod_lt _ (by decide)
  rw [free]
  omega

theorem padded_eq (input : Bytes) : padded input = input ++ suffix (free input.length) := by
  have size : (input.length / RATE + 1) * RATE = input.length + free input.length := by
    have small : input.length % RATE < RATE := Nat.mod_lt _ (by decide)
    have whole := Nat.div_add_mod input.length RATE
    rw [Nat.add_mul, Nat.one_mul, Nat.mul_comm, free]
    omega
  have some := free_pos input.length
  simp only [padded]
  rw [size, Nat.add_sub_cancel_left]
  generalize free input.length = k at some
  cases k with
  | zero => exact absurd some (Nat.lt_irrefl 0)
  | succ k =>
      rw [List.replicate_succ, List.set_append_right _ _ (Nat.le_refl _), Nat.sub_self,
        List.set_cons_zero]
      cases k with
      | zero =>
          have mark : (0x01 : UInt8) ||| 0x80 = 0x81 := by decide
          simp [suffix, mark]
      | succ k =>
          have last : input.length + (k + 1 + 1) - 1 = input.length + (k + 1) := by omega
          have zeros : (List.replicate (k + 1) (0 : UInt8)).set k (0 ||| 0x80) =
              List.replicate k 0 ++ [0x80] := by
            rw [List.replicate_succ', List.set_append_right _ _ (by simp)]
            simp
          have zero : (input ++ 0x01 :: List.replicate (k + 1) (0 : UInt8)).getD
              (input.length + (k + 1)) 0 = 0 := by
            rw [List.getD_append_right _ _ _ _ (by omega), Nat.add_sub_cancel_left,
              List.getD_cons_succ]
            simp [List.getD_eq_getElem?_getD]
          rw [last, zero, List.set_append_right _ _ (by omega), Nat.add_sub_cancel_left,
            List.set_cons_succ, zeros, suffix]

theorem bitsOf_replicate (n : Nat) :
    bitsOf (List.replicate n 0) = List.replicate (8 * n) false := by
  induction n with
  | zero => rfl
  | succ n ih =>
      rw [List.replicate_succ, bitsOf_cons, ih, Nat.mul_succ, Nat.add_comm, List.replicate_add]
      rfl

theorem bitsOf_suffix (k : Nat) :
    bitsOf (suffix (k + 1)) = true :: (List.replicate (8 * k + 6) false ++ [true]) := by
  cases k with
  | zero => rfl
  | succ k =>
      have first : bitsOf [0x01] = true :: List.replicate 7 false := rfl
      have last : bitsOf [0x80] = List.replicate 7 false ++ [true] := rfl
      have split : 8 * (k + 1) + 6 = 7 + (8 * k + 7) := by omega
      rw [suffix, ← List.singleton_append, bitsOf_append, bitsOf_append, bitsOf_replicate, first,
        last, split, List.replicate_add 7, List.replicate_add, List.cons_append, List.append_assoc,
        List.append_assoc]

/-- The padding of the bytes is the padding of the bits. -/
theorem bitsOf_padded (input : Bytes) :
    bitsOf (padded input) = bitsOf input ++ pad 1088 (bitsOf input).length := by
  have some := free_pos input.length
  have zeros : (1088 - (8 * input.length + 2) % 1088) % 1088 = 8 * (free input.length - 1) + 6 := by
    have small : input.length % 136 < 136 := Nat.mod_lt _ (by decide)
    rw [free, RATE]
    omega
  rw [padded_eq, bitsOf_append, length_bitsOf, pad, zeros, ← bitsOf_suffix,
    Nat.sub_add_cancel some]

end Bytes

section Absorb
variable (bytes : Bytes) (lanes : BigUint64Array 25)

/-- A word of the input, by the places of its bits. -/
theorem getBigUint64_testBit (offset : Nat) (z : Fin 64) :
    (getBigUint64 bytes offset).testBit z = (bitsOf bytes).getD (8 * offset + z.val) false := by
  have word : (getBigUint64 bytes offset).testBit z =
      (fromLeBytes ((bytes.drop offset).take 8)).testBit z := rfl
  rw [word, fromLeBytes_testBit, bitsOf_take, bitsOf_drop, List.getD_eq_getElem?_getD,
    List.getElem?_take_of_lt z.isLt, List.getElem?_drop, List.getD_eq_getElem?_getD]

/-- The bytes of a block go into the lanes as its bits go into the state. -/
theorem absorbLanes_bits (i : Nat) : bits (absorbLanes bytes lanes (i * RATE)) =
    addBlock (bits lanes) (((bitsOf bytes).drop (i * 1088)).take 1088) := by
  funext x y z
  have place := z.isLt
  rw [bits, addBlock, absorbLanes]
  by_cases inside : x.val + 5 * y.val < RATE / 8
  · have stored := @get_foldl_store 25 _ _ blockLane
      (fun k old => Int.xor old (getBigUint64 bytes (i * RATE + k.val * 8)))
      (List.nodup_finRange _) ⟨_, inside⟩ (List.mem_finRange _) (lane x y) rfl
      (fun k _ same => Fin.ext (congrArg Fin.val same :)) lanes
    have same : 8 * (i * RATE + (x.val + 5 * y.val) * 8) + z.val =
        i * 1088 + (64 * (5 * y.val + x.val) + z.val) := by
      rw [RATE]
      omega
    have lane : 64 * (5 * y.val + x.val) + z.val < 1088 := by
      rw [RATE] at inside
      omega
    rw [stored, getLsbD_word, Int.testBit_lxor, testBit_at, getBigUint64_testBit, same,
      List.getD_eq_getElem?_getD, List.getD_eq_getElem?_getD, List.getElem?_take_of_lt lane,
      List.getElem?_drop]
    rfl
  · have other : ∀ k ∈ List.finRange (RATE / 8), blockLane k ≠ lane x y := by
      intro k _ same
      exact inside ((congrArg Fin.val same).symm.trans_lt k.isLt)
    have kept := @get_foldl_other 25 _ _ blockLane
      (fun k old => Int.xor old (getBigUint64 bytes (i * RATE + k.val * 8))) _ other lanes
    have lane : 1088 ≤ 64 * (5 * y.val + x.val) + z.val := by
      rw [RATE] at inside
      omega
    rw [kept, List.getD_eq_getElem?_getD, List.getElem?_take_eq_none lane, Option.getD_none,
      Bool.xor_false]
    rfl

/-- Block by block. -/
theorem absorb_bits (blocks : List Nat) :
    bits (blocks.foldl (fun lanes i => permute (absorbLanes bytes lanes (i * RATE))) lanes) =
      blocks.foldl (fun A i =>
        absorbBlock A (((bitsOf bytes).drop (i * 1088)).take 1088)) (bits lanes) := by
  induction blocks generalizing lanes with
  | nil => rfl
  | cons i blocks ih =>
      rw [List.foldl_cons, List.foldl_cons, ih, permute_bits, absorbLanes_bits]
      rfl

end Absorb

/-- What comes out first are the first four lanes. -/
theorem stateBits_take (lanes : BigUint64Array 25) :
    (stateBits (bits lanes)).take 256 = bitsOf ((List.finRange 4).flatMap fun i =>
      leBytes 8 (lanes.get (i.castLE (show 4 ≤ 25 by decide))).toNat) := by
  have order : List.finRange 25 = (List.finRange 4).map (Fin.castLE (by decide)) ++
      (List.finRange 21).map (Fin.natAdd 4) := by decide
  have size : ((List.finRange 4).map (Fin.castLE (show 4 ≤ 25 by decide))).flatMap (fun lane =>
      (List.finRange 64).map fun z => bits lanes (Fin.ofNat 5 lane.val)
        (Fin.ofNat 5 (lane.val / 5)) z) = bitsOf ((List.finRange 4).flatMap fun i =>
          leBytes 8 (lanes.get (i.castLE (show 4 ≤ 25 by decide))).toNat) := by
    rw [bitsOf, List.flatMap_assoc, List.flatMap_map]
    refine List.flatMap_congr fun i _ => ?_
    have place : lane (Fin.ofNat 5 (i.castLE (show 4 ≤ 25 by decide)).val)
        (Fin.ofNat 5 ((i.castLE (show 4 ≤ 25 by decide)).val / 5)) =
          i.castLE (show 4 ≤ 25 by decide) := by
      revert i
      decide
    have words := bitsOf_leBytes (lanes.get (i.castLE (show 4 ≤ 25 by decide)))
    rw [bitsOf] at words
    rw [words]
    refine List.map_congr_left fun z _ => ?_
    simp only [bits, place]
  rw [stateBits, order, List.flatMap_append, size, List.take_left' ?_]
  simp [leBytes]

/-- The hand-written hash is the reference. -/
theorem keccak256_bits (input : Bytes) :
    bitsOf (keccak256 input) = sponge 1088 (bitsOf input) 256 := by
  have start : bits (Vector.replicate 25 0) = fun _ _ _ => false := by
    funext x y z
    have zero : (Vector.replicate 25 (0 : BitVec 64)).get (lane x y) = 0 :=
      Vector.getElem_replicate ..
    rw [bits, zero]
    exact BitVec.getLsbD_zero
  have blocks : (bitsOf (padded input)).length / 1088 = (padded input).length / RATE := by
    rw [length_bitsOf, RATE]
    omega
  have once : squeeze 1088 (256 / 1088 + 1) 256 = fun A =>
      ((stateBits A).take 1088).take 256 := by
    funext A
    exact List.append_nil _
  rw [sponge, once, ← bitsOf_padded, absorb, blocks, ← start, ← absorb_bits]
  dsimp only
  rw [List.take_take, Nat.min_eq_left (by decide), stateBits_take]
  rfl

theorem keccak256_eq (input : Bytes) : keccak256 input = Keccak.keccak256 input := by
  rw [Keccak.keccak256, ← keccak256_bits, bytesOf_bitsOf]

/-- The domains as the program spells them. -/
def VrfDomain.programDomain : VrfDomain → Bytes
  | .round => ROUND_DOMAIN
  | .epoch => EPOCH_DOMAIN

/-- The operator's hash is Keccak-256 of every byte string; and where the program's is too, the
operator derives the seed the program derives, and passes the address the program checks. -/
theorem keccak256_is_reference {rt : Runtime}
    (hashes : ∀ bytes, rt.keccak bytes = Keccak.keccak256 bytes) :
    (∀ input, keccak256 input = Keccak.keccak256 input) ∧
    ∀ (domain : VrfDomain) (pool : Pubkey) (id : Nat) (nonce : Bytes), id < 2 ^ 64 →
      ∃ seed, vrfSeed domain pool id nonce = .ok seed ∧
        seed = HexVault.vrfSeed rt domain.programDomain pool id nonce ∧
        ∀ programId, randomnessAddress rt programId seed false =
          HexVault.randomnessAddress rt (HexVault.vrfSeed rt domain.programDomain pool id nonce) := by
  refine ⟨keccak256_eq, fun domain pool id nonce fits => ?_⟩
  have spelled : domain.bytes = domain.programDomain := by
    cases domain with
    | round => rfl
    | epoch => rfl
  have seed : keccak256 (domain.bytes ++ pool.toBytes ++ leBytes 8 id ++ nonce) =
      HexVault.vrfSeed rt domain.programDomain pool id nonce := by
    rw [HexVault.vrfSeed, hashes, keccak256_eq, spelled]
  refine ⟨_, ?_, seed, fun programId => ?_⟩
  · rw [vrfSeed, writeBigUInt64LE, if_pos fits]
    rfl
  · rw [seed]
    rfl

/-- The seed of an epoch's draw, with the program's hash the reference. -/
theorem keccak256_is_reference_epoch :
    ∃ seed, vrfSeed .epoch ⟨5⟩ 7 (List.replicate 32 1) = .ok seed ∧
      seed = HexVault.vrfSeed ⟨Keccak.keccak256, fun bytes => bytes.take 32, fun _ _ => ⟨9⟩⟩
        EPOCH_DOMAIN ⟨5⟩ 7 (List.replicate 32 1) := by
  obtain ⟨-, seeds⟩ := @keccak256_is_reference
    ⟨Keccak.keccak256, fun bytes => bytes.take 32, fun _ _ => ⟨9⟩⟩ fun _ => rfl
  obtain ⟨seed, derived, same, -⟩ := seeds .epoch ⟨5⟩ 7 (List.replicate 32 1) (by decide)
  exact ⟨seed, derived, same⟩

end Vrf

end HexVault
