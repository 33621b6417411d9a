import Usbd.Dedup.Maps

/-!
# Bounds of the LUN map

What the three calls on the LUN map promise: with all the blocks they address inside the map they
succeed, with one outside they return an error and leave the map as it is, and in no case do they
index outside the ids (`GetsID`, `GetsIDs`, `PutsID`).

Each call has a check of its own, and none of the checks says that.  `GetID` lets the first block
behind the map through; `GetIDs` adds up the end in 64 bits, and refuses an empty range behind the
map; `PutID` compares the number of a block with a number of bytes.  The number of bytes is the size
the map was opened with, which has nothing to do with the ids of a file that was there already.
`lun_map_bounds_iff` says for each call when it keeps its promise.
-/

namespace Usbd

open ListMemory Endian

namespace MmapLUNmap

variable {lm : MmapLUNmap} {block startBlock n dedupID : ℕ}

/-- `GetID` returns the id of a block in the map, and an error for any other. -/
def GetsID (lm : MmapLUNmap) (block : ℕ) : Prop :=
  (∀ h : block < lm.ids.length, lm.getID block = .ok (.ok lm.ids[block])) ∧
    (¬ block < lm.ids.length → ∃ e, lm.getID block = .ok (.error e))

/-- `GetIDs` returns the ids of blocks that are all in the map, and an error for any others. -/
def GetsIDs (lm : MmapLUNmap) (startBlock n : ℕ) : Prop :=
  ((∀ i < n, startBlock + i < lm.ids.length) →
      lm.getIDs startBlock n = .ok (.ok (slice lm.ids startBlock n))) ∧
    (¬ (∀ i < n, startBlock + i < lm.ids.length) →
      ∃ e, lm.getIDs startBlock n = .ok (.error e))

/-- `PutID` enters an id for a block in the map, and for any other returns an error and leaves the
map alone. -/
def PutsID (lm : MmapLUNmap) (block dedupID : ℕ) : Prop :=
  (block < lm.ids.length →
      lm.putID block dedupID false =
        .ok (none, { lm with ids := lm.ids.set block dedupID })) ∧
    (¬ block < lm.ids.length → ∃ e, lm.putID block dedupID false = .ok (some e, lm))

lemma getsID_iff : lm.GetsID block ↔ block ≠ lm.ids.length := by
  constructor
  · rintro ⟨-, hout⟩ rfl
    obtain ⟨e, he⟩ := hout (lt_irrefl _)
    simp [getID] at he
  · intro hne
    refine ⟨fun h => getID_of_lt h, fun h => ⟨.wrap "Out of bounds read" ioEOF, ?_⟩⟩
    rw [getID, if_pos (by omega)]

/-- The blocks of a range that is not empty are in the map when its end is. -/
lemma addressed_iff (hn : 0 < n) :
    (∀ i < n, startBlock + i < lm.ids.length) ↔ startBlock + n ≤ lm.ids.length := by
  constructor
  · intro h
    have := h (n - 1) (by omega)
    omega
  · intro h i hi
    omega

lemma getsIDs_of_sum_lt (hmax : lm.ids.length < 2 ^ 64) (hsum : startBlock + n < 2 ^ 64) :
    lm.GetsIDs startBlock n ↔ (n = 0 → startBlock ≤ lm.ids.length) := by
  rcases Nat.eq_zero_or_pos n with rfl | hn
  · -- an empty range addresses nothing, and is refused behind the map
    simp only [GetsIDs, Nat.not_lt_zero, false_implies, implies_true, not_true_eq_false, and_true,
      true_implies]
    constructor
    · intro h
      by_contra hlt
      rw [getIDs_of_lt (by omega) hsum] at h
      cases h
    · exact fun h => getIDs_of_le h hmax
  · rw [GetsIDs, addressed_iff hn]
    refine iff_of_true ⟨fun h => getIDs_of_le h hmax, fun h => ?_⟩ fun h => absurd h hn.ne'
    exact ⟨_, getIDs_of_lt (not_le.mp h) hsum⟩

lemma getsIDs_of_carry (hmax : lm.ids.length < 2 ^ 64) (hstart : startBlock < 2 ^ 64)
    (hn : n < 2 ^ 64) (hsum : 2 ^ 64 ≤ startBlock + n) :
    lm.GetsIDs startBlock n ↔ lm.ids.length < startBlock + n - 2 ^ 64 := by
  have hpos : 0 < n := by omega
  have hout : ¬ startBlock + n ≤ lm.ids.length := by omega
  rw [GetsIDs, addressed_iff hpos, getIDs_of_carry hstart hn hsum]
  split_ifs with hlt
  · exact iff_of_true ⟨fun h => absurd h hout, fun _ => ⟨_, rfl⟩⟩ hlt
  · refine iff_of_false (fun h => ?_) hlt
    obtain ⟨e, he⟩ := h.2 hout
    cases he

/-- The check of `PutID` is on the wrong number: it has to tell the blocks of the map apart. -/
lemma putsID_iff : lm.PutsID block dedupID ↔
    (block < lm.ids.length ↔ block ≤ toUint64 lm.size) := by
  constructor
  · rintro ⟨hin, hout⟩
    constructor
    · intro h
      by_contra hbig
      have hput := hin h
      rw [putID, if_neg (by simp), if_pos (not_le.mp hbig)] at hput
      simp at hput
    · intro h
      by_contra hbig
      obtain ⟨e, he⟩ := hout hbig
      rw [putID, if_neg (by simp), if_neg (not_lt.mpr h), if_neg hbig] at he
      cases he
  · intro h
    refine ⟨fun hlt => putID_of_lt hlt (h.mp hlt), fun hlt => ?_⟩
    refine ⟨.wrap "Out of bounds write" ioErrUnexpectedEOF, ?_⟩
    rw [putID, if_neg (by simp), if_pos (not_le.mp fun hle => hlt (h.mpr hle))]

end MmapLUNmap

lemma length_longs (n : ℕ) (block : Bytes) : (longs n block).length = n := by
  induction n generalizing block with
  | zero => rfl
  | succ n ih => rw [longs, List.length_cons, ih]

lemma newMmapLUNmap_ok {file : Bytes} {lunBlockSize : ℕ} {ifCreateSize : ℤ} {lm : MmapLUNmap}
    (h : newMmapLUNmap file lunBlockSize ifCreateSize = .ok lm) :
    lm.size = ifCreateSize.tdiv lunBlockSize * lunBlockSize ∧
      lm.ids.length = if file.length < 1 then (ifCreateSize.tdiv lunBlockSize).toNat
        else file.length / 8 := by
  simp only [newMmapLUNmap] at h
  split_ifs at h ⊢ with hempty hnone hnone
  · obtain rfl := Except.ok.inj h
    exact ⟨rfl, by simp [length_longs]⟩
  · obtain rfl := Except.ok.inj h
    exact ⟨rfl, by simp [length_longs]⟩

/-- **Bounds of the LUN map.**  For a map of any size asked for, over a file of any length: `GetID`
keeps its promise for every block but the first behind the map; `GetIDs` for every range whose end
does not carry over into the map, and that is not empty behind the map; `PutID` for the blocks that
are in the map exactly when their number is at most the size in bytes; and the size is no more than
that of the ids exactly when the file is new or has as many ids as were asked for. -/
theorem lun_map_bounds_iff (file : Bytes) (lunBlockSize : ℕ) (ifCreateSize : ℤ) (lm : MmapLUNmap)
    (hbs : 1 ≤ lunBlockSize) (hfile : file.length ≤ maxOffset) (hsize : IsInt64 ifCreateSize)
    (hnew : newMmapLUNmap file lunBlockSize ifCreateSize = .ok lm) :
    (∀ block, block < 2 ^ 64 → (lm.GetsID block ↔ block ≠ lm.ids.length)) ∧
    (∀ startBlock n, startBlock < 2 ^ 64 → n ≤ maxOffset → (lm.GetsIDs startBlock n ↔
      (2 ^ 64 ≤ startBlock + n → lm.ids.length < startBlock + n - 2 ^ 64) ∧
        (n = 0 → startBlock ≤ lm.ids.length))) ∧
    (∀ block dedupID, block < 2 ^ 64 → (lm.PutsID block dedupID ↔
      (block < lm.ids.length ↔ block ≤ toUint64 lm.size))) ∧
    (lm.size ≤ lm.ids.length * lunBlockSize ↔
      file = [] ∨ ifCreateSize.tdiv lunBlockSize ≤ (file.length / 8 : ℕ)) := by
  obtain ⟨hlmsize, hids⟩ := newMmapLUNmap_ok hnew
  have hmax : lm.ids.length < 2 ^ 64 := by
    have habs := Int.natAbs_tdiv_le_natAbs ifCreateSize lunBlockSize
    obtain ⟨hlo, hhi⟩ := hsize
    rw [maxOffset] at hfile hhi
    split_ifs at hids <;> omega
  refine ⟨fun block _ => MmapLUNmap.getsID_iff, fun startBlock n hstart hn => ?_,
    fun block dedupID _ => MmapLUNmap.putsID_iff, ?_⟩
  · rw [maxOffset] at hn
    by_cases hsum : startBlock + n < 2 ^ 64
    · rw [MmapLUNmap.getsIDs_of_sum_lt hmax hsum]
      exact (and_iff_right fun h => absurd h (not_le.mpr hsum)).symm
    · have hcarry := not_lt.mp hsum
      rw [MmapLUNmap.getsIDs_of_carry hmax hstart (by omega) hcarry]
      have hpos : n ≠ 0 := by omega
      exact ⟨fun h => ⟨fun _ => h, fun h0 => absurd h0 hpos⟩, fun h => h.1 hcarry⟩
  · rw [hlmsize, Int.mul_le_mul_iff_of_pos_right (by omega), hids]
    by_cases hempty : file = []
    · simp [hempty]
    · rw [if_neg (by simpa using hempty)]
      exact (or_iff_right hempty).symm

/-- A map of two blocks, opened again with a smaller size. -/
theorem lun_map_bounds_iff_reopened :
    newMmapLUNmap (leBytes 8 zeroBlockID ++ leBytes 8 7) 4096 0 = .ok ⟨[zeroBlockID, 7], 0⟩ ∧
      (⟨[zeroBlockID, 7], 0⟩ : MmapLUNmap).GetsID 1 ∧
      ¬ (⟨[zeroBlockID, 7], 0⟩ : MmapLUNmap).PutsID 1 5 := by
  have hnew : newMmapLUNmap (leBytes 8 zeroBlockID ++ leBytes 8 7) 4096 0 =
      .ok ⟨[zeroBlockID, 7], 0⟩ := by
    decide +kernel
  obtain ⟨hget, -, hput, -⟩ :=
    lun_map_bounds_iff _ _ _ _ (by decide) (by decide +kernel) (by decide) hnew
  refine ⟨hnew, (hget 1 (by decide)).mpr (by decide), fun h => ?_⟩
  exact absurd ((hput 1 5 (by decide)).mp h) (by decide +kernel)

/-- A new map of one block of 4096 bytes: `GetID` of the block behind it panics, and so does `PutID`
of any block up to the 4096th; `GetIDs` of one block from the largest number on panics.  Opened
again with a larger size the map reports more bytes than it has blocks for. -/
theorem lun_map_indexes_outside :
    newMmapLUNmap [] 4096 4096 = .ok ⟨[zeroBlockID], 4096⟩ ∧
      (⟨[zeroBlockID], 4096⟩ : MmapLUNmap).getID 1 = .error .panic ∧
      (∀ block ∈ [1, 2, 4096],
        (⟨[zeroBlockID], 4096⟩ : MmapLUNmap).putID block 0 false = .error .panic) ∧
      (⟨[zeroBlockID], 4096⟩ : MmapLUNmap).getIDs (2 ^ 64 - 1) 1 = .error .panic ∧
      newMmapLUNmap (leBytes 8 zeroBlockID) 4096 8192 = .ok ⟨[zeroBlockID], 8192⟩ := by
  decide +kernel

end Usbd
