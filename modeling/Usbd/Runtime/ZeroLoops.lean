import Usbd.Runtime.Zeros

/-!
# The loops of the zero helpers

`isZeros` and `zeroFill` say what `util.IsZeros` and `util.ZeroFill` compute on the bytes of a
slice. Here the two run as they are written.  `IsZeros` reinterprets the memory of the slice as
64-bit words behind the run time's back, so that it loads whatever lies at the addresses it
computes; the loads are recorded, byte by byte, and are those of the slice, in order and none
twice.  `ZeroFill` copies the cleared part of the slice over the rest and doubles an index, which is
a signed number of the machine; its copies are recorded, and the loop is left when the index has
been doubled past the length.

Both return what the functions on bytes say.
-/

namespace Usbd

open ListMemory Endian

/-! ## Memory -/

/-- Memory: a byte at every address. -/
abbrev Memory := ℕ → UInt8

namespace Memory

variable (mem : Memory)

/-- The `n` bytes from an address on. -/
def window (addr n : ℕ) : Bytes := (List.range' addr n).map mem

/-- A loop over `count` elements of `width` bytes each that returns at the first one that is not
zero: whether there was none, and the addresses of the bytes it has loaded. -/
def scan (width : ℕ) : ℕ → ℕ → Bool × List ℕ
  | 0, _ => (true, [])
  | count + 1, addr =>
    if ofLE (mem.window addr width) ≠ 0 then (false, List.range' addr width)
    else (scan width count (addr + width)).map id (List.range' addr width ++ ·)

variable {mem}

lemma window_add (addr m n : ℕ) :
    mem.window addr (m + n) = mem.window addr m ++ mem.window (addr + m) n := by
  rw [window, window, window, ← List.map_append, List.range'_append_1]

lemma forall_mem_window {addr n : ℕ} :
    (∀ b ∈ mem.window addr n, b = 0) ↔ ∀ i < n, mem (addr + i) = 0 := by
  simp only [window, List.mem_map, List.mem_range'_1, forall_exists_index, and_imp]
  constructor
  · intro h i hi
    exact h _ (addr + i) (by omega) (by omega) rfl
  · rintro h b a hlo hhi rfl
    obtain ⟨i, rfl⟩ := Nat.exists_eq_add_of_le hlo
    exact h i (by omega)

/-- What a loop over `n` bytes from `addr` on returns: whether all of them are zero, and loads of
nothing but these bytes, one after the other, and of all of them unless one is not zero. -/
structure Scans (mem : Memory) (addr n : ℕ) (found : Bool × List ℕ) : Prop where
  zero : found.1 = true ↔ ∀ b ∈ mem.window addr n, b = 0
  whole : found.1 = true → found.2 = List.range' addr n
  within : found.2 <+: List.range' addr n

/-- A loop, and another one over the bytes behind it unless it has returned. -/
lemma Scans.append {addr m n : ℕ} {found found' : Bool × List ℕ} (h : Scans mem addr m found)
    (h' : Scans mem (addr + m) n found') :
    Scans mem addr (m + n)
      (if found.1 then found'.map id (found.2 ++ ·) else (false, found.2)) := by
  rw [← Bool.cond_eq_ite]
  cases hfound : found.1 with
  | false =>
    refine ⟨iff_of_false (by simp) fun hall => ?_, by simp, ?_⟩
    · rw [window_add] at hall
      have hzero := h.zero.mpr fun b hb => hall b (List.mem_append_left _ hb)
      rw [hfound] at hzero
      cases hzero
    · rw [← List.range'_append_1]
      exact h.within.trans (List.prefix_append _ _)
  | true =>
    rw [cond_true, h.whole hfound]
    refine ⟨?_, fun hzero => ?_, ?_⟩
    · rw [Prod.map_fst, id, h'.zero, window_add, List.forall_mem_append]
      exact (and_iff_right (h.zero.mp hfound)).symm
    · rw [Prod.map_snd, h'.whole hzero, List.range'_append_1]
    · rw [Prod.map_snd, ← List.range'_append_1]
      exact (List.prefix_append_right_inj _).mpr h'.within

/-- The loop over elements is the loads of one element, and then those of the rest. -/
lemma scans_scan (width count addr : ℕ) :
    Scans mem addr (count * width) (mem.scan width count addr) := by
  induction count generalizing addr with
  | zero => exact ⟨by simp [scan, window], by simp [scan], by simp [scan]⟩
  | succ count ih =>
    have hone : Scans mem addr width
        (decide (ofLE (mem.window addr width) = 0), List.range' addr width) :=
      ⟨by rw [decide_eq_true_iff, ofLE_eq_zero_iff], fun _ => rfl, List.prefix_rfl⟩
    have happend := hone.append (ih (addr + width))
    rw [Nat.succ_mul, Nat.add_comm (count * width), scan]
    simpa only [decide_eq_true_eq, ne_eq, ite_not] using happend

end Memory

/-! ## Testing -/

/-- `reflect.SliceHeader`: where a slice lies and how long it is.  A length is not negative.
Nothing reads the capacity. -/
structure SliceHeader where
  data : ℕ
  len : ℕ

namespace SliceHeader

/-- The bytes of a slice. -/
def bytes (mem : Memory) (block : SliceHeader) : Bytes := mem.window block.data block.len

/-- `block[start:]`. -/
def sliceFrom (block : SliceHeader) (start : ℕ) : Except Stop SliceHeader :=
  if start ≤ block.len then .ok ⟨block.data + start, block.len - start⟩ else .error .panic

/-- `util.IsZeros`: the answer, and the addresses of the bytes it loads.  `longs` is no slice of the
run time: its header says what memory to take for words. -/
def isZeros (mem : Memory) (bytesHdr : SliceHeader) : Except Stop (Bool × List ℕ) :=
  let alignedCount := (bytesHdr.len &&& maxAlignedMagic) / 8
  let longsHdr : SliceHeader := ⟨bytesHdr.data, alignedCount⟩
  let (zero, loads, remainingStart) :=
    if 0 < alignedCount then
      let (zero, loads) := mem.scan 8 longsHdr.len longsHdr.data
      (zero, loads, alignedCount * 8)
    else (true, [], 0)
  if zero then
    match bytesHdr.sliceFrom remainingStart with
    | .error stop => .error stop
    | .ok rest => .ok ((mem.scan 1 rest.len rest.data).map id (loads ++ ·))
  else .ok (false, loads)

/-- The two loops are one over the whole slice: the words end inside it, whatever the mask leaves of
the length, and the bytes are the rest. -/
lemma scans_isZeros (mem : Memory) (block : SliceHeader) :
    ∃ found, block.isZeros mem = .ok found ∧ mem.Scans block.data block.len found := by
  set k := (block.len &&& maxAlignedMagic) / 8 with hk
  have hle : k * 8 ≤ block.len := by
    have hmask : block.len &&& maxAlignedMagic ≤ block.len := Nat.and_le_left
    omega
  have hlongs : mem.Scans block.data (k * 8) (mem.scan 8 k block.data) := Memory.scans_scan 8 k _
  have hchars : mem.Scans (block.data + k * 8) ((block.len - k * 8) * 1)
      (mem.scan 1 (block.len - k * 8) (block.data + k * 8)) := Memory.scans_scan 1 _ _
  have hboth := hlongs.append hchars
  rw [show k * 8 + (block.len - k * 8) * 1 = block.len by omega] at hboth
  refine ⟨_, ?_, hboth⟩
  rcases Nat.eq_zero_or_pos k with hzero | hpos
  · simp [isZeros, ← hk, hzero, sliceFrom, Memory.scan]
  · simp only [isZeros, ← hk, if_pos hpos, sliceFrom, if_pos hle]
    split_ifs <;> rfl

end SliceHeader

open SliceHeader in
/-- **`IsZeros` agrees with the byte-by-byte test.**  For every slice, of any length and anywhere in
memory: it returns, with `true` if and only if every byte of the slice is zero; it loads the bytes
of the slice, from the first on, each at most once and nothing else; and when it answers `true` it
has loaded them all. -/
theorem isZeros_agrees_bytewise (mem : Memory) (block : SliceHeader) :
    ∃ zero loads, block.isZeros mem = .ok (zero, loads) ∧
      (zero = true ↔ ∀ i < block.len, mem (block.data + i) = 0) ∧
      zero = Usbd.isZeros (block.bytes mem) ∧
      loads <+: List.range' block.data block.len ∧
      (zero = true → loads = List.range' block.data block.len) := by
  obtain ⟨⟨zero, loads⟩, hrun, hscans⟩ := scans_isZeros mem block
  refine ⟨zero, loads, hrun, ?_, ?_, hscans.within, hscans.whole⟩
  · rw [← Memory.forall_mem_window]
    exact hscans.zero
  · rw [Bool.eq_iff_iff, isZeros_iff, bytes]
    exact hscans.zero

/-! ## Clearing -/

/-- One `copy(block[i:], block[:i])`: where it writes, what it finds in `block[:i]`, and how many
bytes it copies. -/
structure FillCopy where
  i : ℕ
  source : Bytes
  count : ℕ

/-- The loop of `util.ZeroFill` from `i` on: the slice and the copies, or nothing if the loop is not
left in so many rounds.  `int` is what the machine's integers make of a number. -/
def fillLoop (int : ℤ → ℤ) : ℕ → ℤ → Bytes → Except Stop (Option (Bytes × List FillCopy))
  | 0, _, _ => .ok none
  | rounds + 1, i, block =>
    if i < block.length then
      if i < 0 then .error .panic
      else
        let source := block.take i.toNat
        let rest := block.drop i.toNat
        (fillLoop int rounds (int (2 * i)) (source ++ goCopy rest source)).map
          (Option.map (Prod.map id (⟨i.toNat, source, min rest.length source.length⟩ :: ·)))
    else .ok (some (block, []))

/-- `util.ZeroFill`, with its copies. -/
def zeroFillRun (int : ℤ → ℤ) (rounds : ℕ) (block : Bytes) :
    Except Stop (Option (Bytes × List FillCopy)) :=
  if block.length < 1 then .ok (some (block, []))
  else fillLoop int rounds 1 (block.set 0 0)

/-- The loop is left, with every byte cleared.  Each copy finds zeros in its source, and the bytes
behind the first one are all written by some copy. -/
def ClearsAll (int : ℤ → ℤ) (block : Bytes) : Prop :=
  ∃ copies, (∀ rounds, Nat.clog 2 block.length < rounds →
      zeroFillRun int rounds block = .ok (some (zeros block.length, copies))) ∧
    (∀ c ∈ copies, ∀ b ∈ c.source, b = 0) ∧
    ∀ k, 0 < k → k < block.length → ∃ c ∈ copies, c.i ≤ k ∧ k < c.i + c.count

variable {int : ℤ → ℤ}

lemma fillLoop_of_le {i : ℕ} {block : Bytes} (hle : block.length ≤ i) {rounds : ℕ}
    (hrounds : 0 < rounds) : fillLoop int rounds i block = .ok (some (block, [])) := by
  obtain ⟨rounds, rfl⟩ := Nat.exists_eq_succ_of_ne_zero hrounds.ne'
  rw [fillLoop, if_neg (by omega)]

lemma fillLoop_of_lt {i : ℕ} {block : Bytes} (hlt : i < block.length)
    (hint : int (2 * i) = 2 * i) (rounds : ℕ) :
    fillLoop int (rounds + 1) i block =
      (fillLoop int rounds (2 * i : ℕ)
        (block.take i ++ goCopy (block.drop i) (block.take i))).map
        (Option.map (Prod.map id (⟨i, block.take i, min (block.length - i) i⟩ :: ·))) := by
  rw [fillLoop, if_pos (by omega), if_neg (by omega), hint]
  simp only [Int.toNat_natCast, List.length_drop, List.length_take, Nat.min_eq_left hlt.le,
    Nat.cast_mul, Nat.cast_ofNat]

/-- The same of the loop from an index on, which is left behind the `d`-th round. -/
def ClearsFrom (int : ℤ → ℤ) (d i : ℕ) (block : Bytes) : Prop :=
  ∃ copies, (∀ rounds, d < rounds →
      fillLoop int rounds i block = .ok (some (zeros block.length, copies))) ∧
    (∀ c ∈ copies, ∀ b ∈ c.source, b = 0) ∧
    ∀ k, i ≤ k → k < block.length → ∃ c ∈ copies, c.i ≤ k ∧ k < c.i + c.count

lemma clearsFrom_of_le {i : ℕ} {block : Bytes} (hle : block.length ≤ i)
    (hz : block.take i = zeros (min i block.length)) (d : ℕ) : ClearsFrom int d i block := by
  rw [List.take_of_length_le hle, Nat.min_eq_right hle] at hz
  refine ⟨[], fun rounds hrounds => ?_, by simp, fun k hlo hhi => by omega⟩
  rw [fillLoop_of_le hle (by omega), ← hz]

/-- A round copies zeros from before the index behind it, and leaves the rest to the next one. -/
lemma clearsFrom_of_lt {d i : ℕ} {block block' : Bytes} (hlt : i < block.length)
    (hint : int (2 * i) = 2 * i) (hz : block.take i = zeros (min i block.length))
    (hround : block' = block.take i ++ goCopy (block.drop i) (block.take i))
    (hlen : block'.length = block.length) (hnext : ClearsFrom int d (2 * i) block') :
    ClearsFrom int (d + 1) i block := by
  obtain ⟨copies, hleft, hsource, hcover⟩ := hnext
  refine ⟨⟨i, block.take i, min (block.length - i) i⟩ :: copies, ?_, ?_, ?_⟩
  · intro rounds hrounds
    obtain ⟨rounds, rfl⟩ := Nat.exists_eq_add_of_le' (show 1 ≤ rounds by omega)
    rw [fillLoop_of_lt hlt hint, ← hround, hleft rounds (by omega), hlen]
    rfl
  · refine List.forall_mem_cons.mpr ⟨fun b hb => ?_, hsource⟩
    rw [hz] at hb
    exact List.eq_of_mem_replicate hb
  · intro k hlo hhi
    rcases lt_or_ge k (2 * i) with hk | hk
    · exact ⟨_, List.mem_cons_self, hlo, by simp only; omega⟩
    · obtain ⟨c, hc, hin⟩ := hcover k hk (by omega)
      exact ⟨c, List.mem_cons_of_mem _ hc, hin⟩

/-- Behind `2 ^ e` zeros the loop clears the rest.  The induction is on how many doublings the
length is away. -/
lemma clearsFrom_pow (d : ℕ) {e : ℕ} {block : Bytes}
    (hint : ∀ i : ℕ, i < block.length → int (2 * i) = 2 * i)
    (hd : Nat.clog 2 block.length ≤ e + d)
    (hz : block.take (2 ^ e) = zeros (min (2 ^ e) block.length)) :
    ClearsFrom int d (2 ^ e) block := by
  induction d generalizing e block with
  | zero => exact clearsFrom_of_le ((Nat.clog_le_iff_le_pow one_lt_two).mp hd) hz 0
  | succ d ih =>
    rcases le_or_gt block.length (2 ^ e) with hle | hlt
    · exact clearsFrom_of_le hle hz _
    · obtain ⟨hlen, hz'⟩ := zeroFill_round hlt hz rfl
      refine clearsFrom_of_lt hlt (hint _ hlt) hz rfl hlen ?_
      rw [← Nat.pow_succ'] at hz' ⊢
      exact ih (by rwa [hlen]) (by rw [hlen]; omega) hz'

/-- The whole function, on a machine whose integers have room for twice the length. -/
lemma clearsAll_of_int {block : Bytes}
    (hint : ∀ i : ℕ, i < block.length → int (2 * i) = 2 * i) : ClearsAll int block := by
  rcases Nat.eq_zero_or_pos block.length with hzero | hpos
  · refine ⟨[], fun rounds _ => ?_, by simp, fun k hlo hhi => by omega⟩
    rw [zeroFillRun, if_pos (by omega), List.length_eq_zero_iff.mp hzero]
    rfl
  · have hlen : (block.set 0 0).length = block.length := List.length_set
    have hz : (block.set 0 0).take (2 ^ 0) = zeros (min (2 ^ 0) (block.set 0 0).length) := by
      obtain ⟨b, bs, rfl⟩ := List.exists_cons_of_length_pos hpos
      rw [List.set_cons_zero, pow_zero, List.length_cons, Nat.min_eq_left (by omega)]
      rfl
    obtain ⟨copies, hleft, hsource, hcover⟩ := clearsFrom_pow (Nat.clog 2 block.length)
      (hlen ▸ hint) (by rw [hlen]; omega) hz
    rw [hlen] at hleft hcover
    refine ⟨copies, fun rounds hrounds => ?_, hsource, fun k hlo hhi => hcover k hlo hhi⟩
    rw [zeroFillRun, if_neg (by omega)]
    exact hleft rounds hrounds

/-- **`ZeroFill` clears everything.**  For every slice, of any length and contents: the loop is
left, with a slice of the same length and every byte zero; each copy has zeros in its source, and
together they write every byte behind the first.  With the 64-bit integers of the machine the index
is doubled without an overflow up to `2 ^ 62` bytes, and no slice of the run time is nearly as long.
-/
theorem zeroFill_clears_everything (block : Bytes) :
    ClearsAll id block ∧ (block.length ≤ 2 ^ 62 → ClearsAll wrapInt64 block) ∧
      zeroFill block = zeros block.length := by
  refine ⟨clearsAll_of_int fun i _ => rfl, fun hlen => clearsAll_of_int fun i hi => ?_,
    zeroFill_eq block⟩
  have hfits : IsInt64 (2 * i) := ⟨by omega, by rw [maxOffset]; omega⟩
  exact wrapInt64_of_isInt64 hfits

/-- Five bytes: three copies, the last one cut short. -/
theorem zeroFill_clears_everything_five : ClearsAll wrapInt64 [7, 7, 7, 7, 7] :=
  (zeroFill_clears_everything [7, 7, 7, 7, 7]).2.1 (by decide)

end Usbd
