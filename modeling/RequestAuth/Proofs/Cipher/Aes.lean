import RequestAuth.Cipher.Aes
import RequestAuth.Proofs.Bytes
import RequestAuth.Proofs.Digest.Sha2

/-!
# Chains of blocks for all byte strings

Under every key each byte string, filled up to whole blocks, is what some chain of blocks decrypts
to (`Aes.unpad?_decryptChain`). The chain is found from its end (`Aes.chainTo`): its last block may
be any, and each block before it is what the next one has to be chained to. So all that has to be
known of the cipher is that a block decrypts to a block (`Aes.length_decryptBlock`).
-/

namespace RequestAuth.Aes

variable {block key : Bytes} {keys plain : List Bytes}

/-! ## Blocks decrypt to blocks -/

theorem length_unmixColumn (column : Bytes) : (unmixColumn column).length = column.length := by
  unfold unmixColumn
  split <;> rfl

theorem length_unmix (h : block.length = 16) : (unmix block).length = 16 := by
  have whole : 4 ∣ block.length := h ▸ by decide
  obtain ⟨columns, hc, rfl⟩ := Sha2.exists_flatten whole
  rw [← h, unmix, Sha2.pieces_flatten (by decide) hc, List.length_flatMap, List.length_flatten,
    List.map_congr_left fun column _ => length_unmixColumn column]

theorem length_unround (hk : ∀ key ∈ keys, key.length = 16) (hb : block.length = 16) :
    (unround block keys).length = 16 := by
  fun_induction unround block keys with
  | case1 => exact hb
  | case2 block key => simp [unshift, hk key List.mem_cons_self]
  | case3 block key rest _ ih =>
    refine ih (fun other ho => hk other (.tail _ ho)) (length_unmix ?_)
    simp [unshift, hk key List.mem_cons_self]

theorem length_decryptBlock (hk : ∀ key ∈ keys, key.length = 16) (hb : block.length = 16) :
    (decryptBlock keys block).length = 16 := by
  unfold decryptBlock
  split
  · exact hb
  · next key rest =>
    refine length_unround (fun other ho => hk other (.tail _ ho)) ?_
    simp [hb, hk key List.mem_cons_self]

/-! ## The keys of the rounds -/

/-- There are words, each of four bytes. -/
def IsSchedule (count : Nat) (words : Array Bytes) : Prop :=
  words.size = count ∧ ∀ word ∈ words, word.length = 4

theorem IsSchedule.length_getD {count i : Nat} {words : Array Bytes} (h : IsSchedule count words)
    (hi : i < count) : (words.getD i []).length = 4 := by
  obtain ⟨rfl, four⟩ := h
  rw [Array.getD_eq_getD_getElem?, Array.getElem?_eq_getElem hi]
  exact four _ (Array.getElem_mem hi)

theorem length_turned (word : Bytes) (f : UInt8 → UInt8) :
    ((word.drop 1 ++ word.take 1).map f).length = word.length := by
  simp only [List.length_map, List.length_append, List.length_drop, List.length_take]
  omega

theorem IsSchedule.expand {size count : Nat} {words : Array Bytes} (pos : 0 < size)
    (h : IsSchedule count words) (enough : size ≤ count) (more : Nat) :
    IsSchedule (count + more) (expand size more words) := by
  induction more generalizing count words with
  | zero => exact h
  | succ more ih =>
    obtain rfl := h.1
    have last := h.length_getD (Nat.sub_lt (pos.trans_le enough) Nat.one_pos)
    have back := h.length_getD (Nat.sub_lt (pos.trans_le enough) pos)
    have next (changed : Bytes) (four : changed.length = 4) : IsSchedule (words.size + 1)
        (words.push (Bytes.xor (words.getD (words.size - size) []) changed)) := by
      refine ⟨Array.size_push _, fun word hw => ?_⟩
      rcases Array.mem_push.1 hw with hw | rfl
      · exact h.2 word hw
      · rw [Bytes.length_xor, back, four, Nat.min_self]
    rw [← Nat.add_assoc, Nat.add_right_comm]
    refine ih (next _ ?_) (Nat.le_succ_of_le enough)
    split
    · have turned := (length_turned _ (look box)).trans last
      split
      · next he => rwa [he] at turned
      · next he =>
        rw [he] at turned
        cases turned
    · split
      · rw [List.length_map, last]
      · exact last

theorem length_of_mem_roundKeys (full : key ≠ []) (h : 4 ∣ key.length) :
    ∀ round ∈ roundKeys key, round.length = 16 := by
  obtain ⟨words, hw, rfl⟩ := Sha2.exists_flatten h
  have size := Sha2.length_flatten hw
  have pos : 0 < words.length := by
    have := List.length_pos_iff.2 full
    omega
  have start : IsSchedule words.length words.toArray := ⟨rfl, by simpa using hw⟩
  have schedule := start.expand pos le_rfl (4 * (words.length + 7) - words.length)
  have total : words.length + (4 * (words.length + 7) - words.length) = 4 * (words.length + 7) := by
    omega
  rw [total] at schedule
  rw [roundKeys, size, Nat.mul_div_cancel_left _ (by decide), Sha2.pieces_flatten (by decide) hw]
  generalize expand words.length _ words.toArray = all at schedule ⊢
  have whole : 4 ∣ all.toList.length := by
    rw [Array.length_toList, schedule.1]
    exact Nat.dvd_mul_right _ _
  obtain ⟨groups, hg, he⟩ := Sha2.exists_flatten whole
  intro round hr
  rw [← he, Sha2.pieces_flatten (by decide) hg] at hr
  obtain ⟨group, hm, rfl⟩ := List.mem_map.1 hr
  have four : ∀ word ∈ group, word.length = 4 := fun word hword =>
    schedule.2 word (Array.mem_toList_iff.1 (he ▸ List.mem_flatten.2 ⟨group, hm, hword⟩))
  rw [Sha2.length_flatten four, hg group hm]

/-! ## Chains -/

/-- The last block of a chain, which may be any. -/
def lastBlock : Bytes := List.replicate 16 0

/-- What the first block of a chain that decrypts to the given blocks is chained to, and the
chain. -/
def chainTo (keys : List Bytes) : List Bytes → Bytes × List Bytes
  | [] => (lastBlock, [])
  | block :: rest =>
    let (first, chain) := chainTo keys rest
    (Bytes.xor (decryptBlock keys first) block, first :: chain)

theorem length_chainTo_snd (keys plain : List Bytes) :
    (chainTo keys plain).2.length = plain.length := by
  induction plain with
  | nil => rfl
  | cons block plain ih => exact congrArg Nat.succ ih

theorem length_chainTo (hk : ∀ key ∈ keys, key.length = 16)
    (hp : ∀ block ∈ plain, block.length = 16) :
    (chainTo keys plain).1.length = 16 ∧
      ∀ block ∈ (chainTo keys plain).2, block.length = 16 := by
  induction plain with
  | nil => exact ⟨rfl, nofun⟩
  | cons block plain ih =>
    obtain ⟨first, chain⟩ := ih fun other ho => hp other (.tail _ ho)
    refine ⟨?_, List.forall_mem_cons.2 ⟨first, chain⟩⟩
    simp [chainTo, length_decryptBlock hk first, hp block List.mem_cons_self]

theorem zipWith_chainTo (hk : ∀ key ∈ keys, key.length = 16)
    (hp : ∀ block ∈ plain, block.length = 16) :
    List.zipWith (fun before block => Bytes.xor (decryptBlock keys block) before)
      ((chainTo keys plain).1 :: (chainTo keys plain).2) (chainTo keys plain).2 = plain := by
  induction plain with
  | nil => rfl
  | cons block plain ih =>
    have hp' : ∀ other ∈ plain, other.length = 16 := fun other ho => hp other (.tail _ ho)
    have first := length_decryptBlock hk (length_chainTo hk hp').1
    have fits : block.length ≤ (decryptBlock keys (chainTo keys plain).1).length := by
      rw [first, hp block List.mem_cons_self]
    rw [chainTo, List.zipWith_cons_cons, Bytes.xor_xor fits, ih hp']

/-! ## Filling up -/

/-- A byte string, filled up to whole blocks. -/
def pad (bytes : Bytes) : Bytes :=
  let n := 16 - bytes.length % 16
  bytes ++ List.replicate n (UInt8.ofNat n)

theorem dvd_length_pad (bytes : Bytes) : 16 ∣ (pad bytes).length := by
  simp only [pad, List.length_append, List.length_replicate]
  omega

theorem unpad?_append {n : Nat} (pos : 1 ≤ n) (small : n ≤ 16) (bytes : Bytes) :
    unpad? (bytes ++ List.replicate n (UInt8.ofNat n)) = some bytes := by
  have count : (UInt8.ofNat n).toNat = n := UInt8.toNat_ofNat_of_lt' (show _ < 256 by omega)
  have last : (bytes ++ List.replicate n (UInt8.ofNat n)).getLast? = some (UInt8.ofNat n) := by
    obtain ⟨m, rfl⟩ := Nat.exists_eq_add_of_le' pos
    rw [List.replicate_succ', ← List.append_assoc, List.getLast?_concat]
  have fits : n ≤ bytes.length + n := Nat.le_add_left _ _
  simp [unpad?, last, count, pos, small, fits]

theorem unpad?_pad (bytes : Bytes) : unpad? (pad bytes) = some bytes :=
  unpad?_append (by omega) (Nat.sub_le _ _) bytes

/-- Each byte string is what a chain of whole blocks decrypts to. -/
theorem unpad?_decryptChain (full : key ≠ []) (h : 4 ∣ key.length) (bytes : Bytes) :
    ∃ iv ciphertext, iv.length = 16 ∧ ciphertext.length = (pad bytes).length ∧
      unpad? (decryptChain key iv ciphertext) = some bytes := by
  obtain ⟨plain, hp, he⟩ := Sha2.exists_flatten (dvd_length_pad bytes)
  have hk : ∀ round ∈ (roundKeys key).reverse, round.length = 16 := fun round hr =>
    length_of_mem_roundKeys full h round (List.mem_reverse.1 hr)
  obtain ⟨first, blocks⟩ := length_chainTo hk hp
  refine ⟨_, (chainTo (roundKeys key).reverse plain).2.flatten, first, ?_, ?_⟩
  · rw [Sha2.length_flatten blocks, length_chainTo_snd, ← he, Sha2.length_flatten hp]
  · rw [decryptChain, Sha2.pieces_flatten (by decide) blocks, zipWith_chainTo hk hp, he, unpad?_pad]

end RequestAuth.Aes
