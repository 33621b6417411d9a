import Usbd.Runtime.File

/-!
# Numbers and names as text

The parts of `strconv`, `encoding/hex`, `strings` and `path/filepath` with which object names and
object metadata are written and read back.  A string is its list of characters.

`formatInt` and `parseInt` are written for any base up to 36; `itoa` and `atoi` are base ten.  Both
round trips used later are here: a number that fits in 64 bits reads back from its digits in any
base, and bytes read back from their hexadecimal digits.
-/

namespace Usbd

/-- A Go string. -/
abbrev GoString := List Char

/-! ## Numbers -/

/-- The digit of value `d`, for bases up to 36. -/
def digitChar (d : ℕ) : Char := Char.ofNat (if d < 10 then 48 + d else 87 + d)

/-- The value of a digit, in either case. -/
def charDigit (c : Char) : Option ℕ :=
  if '0' ≤ c ∧ c ≤ '9' then some (c.toNat - 48)
  else if 'a' ≤ c ∧ c ≤ 'z' then some (c.toNat - 87)
  else if 'A' ≤ c ∧ c ≤ 'Z' then some (c.toNat - 55)
  else none

/-- Digits of `n` in front of `acc`, most significant first. -/
def digitsLoop (base : ℕ) : ℕ → ℕ → GoString → GoString
  | 0, _, acc => acc
  | rounds + 1, n, acc =>
    if n < base then digitChar n :: acc
    else digitsLoop base rounds (n / base) (digitChar (n % base) :: acc)

def formatUint (n base : ℕ) : GoString := digitsLoop base (n + 1) n []

def formatInt (n : ℤ) (base : ℕ) : GoString :=
  if n < 0 then '-' :: formatUint n.natAbs base else formatUint n.natAbs base

/-- The digits behind the sign, continuing from `acc`. -/
def parseDigits (base : ℕ) : GoString → ℕ → Option ℕ
  | [], acc => some acc
  | c :: cs, acc => (charDigit c).bind fun d =>
    if d < base then parseDigits base cs (acc * base + d) else none

/-- `strconv.ParseInt` with 64 bits: `none` is a syntax or a range error. -/
def parseInt (s : GoString) (base : ℕ) : Option ℤ :=
  let unsigned (s : GoString) (limit : ℕ) : Option ℕ :=
    if s = [] then none
    else (parseDigits base s 0).bind fun n => if n ≤ limit then some n else none
  match s with
  | '-' :: s => (unsigned s (2 ^ 63)).map fun (n : ℕ) => -(n : ℤ)
  | '+' :: s => (unsigned s maxOffset).map fun (n : ℕ) => (n : ℤ)
  | s => (unsigned s maxOffset).map fun (n : ℕ) => (n : ℤ)

/-- `strconv.Itoa` of a number that is not negative. -/
def itoa (n : ℕ) : GoString := formatUint n 10

def atoi (s : GoString) : Option ℤ := parseInt s 10

lemma charDigit_digitChar {d : ℕ} (h : d < 36) : charDigit (digitChar d) = some d := by
  have hall : ∀ d : Fin 36, charDigit (digitChar d) = some d.val := by decide
  exact hall ⟨d, h⟩

lemma digitChar_ne {d : ℕ} (h : d < 36) :
    digitChar d ≠ '-' ∧ digitChar d ≠ '+' ∧ digitChar d ≠ '.' := by
  have hall : ∀ d : Fin 36, digitChar d ≠ '-' ∧ digitChar d ≠ '+' ∧ digitChar d ≠ '.' := by decide
  exact hall ⟨d, h⟩

lemma parseDigits_digitsLoop {base : ℕ} (h2 : 2 ≤ base) (h36 : base ≤ 36) (rounds : ℕ) {n : ℕ}
    (hn : n < rounds) (rest : GoString) :
    parseDigits base (digitsLoop base rounds n rest) 0 = parseDigits base rest n := by
  induction rounds generalizing n rest with
  | zero => omega
  | succ rounds ih =>
    rw [digitsLoop]
    split_ifs with hlt
    · rw [parseDigits, charDigit_digitChar (by omega), Option.bind_some, if_pos hlt, Nat.zero_mul,
        Nat.zero_add]
    · have hdiv : n / base < n := Nat.div_lt_self (by omega) (by omega)
      have hmod : n % base < base := Nat.mod_lt _ (by omega)
      rw [ih (by omega), parseDigits, charDigit_digitChar (by omega), Option.bind_some, if_pos hmod,
        Nat.div_add_mod']

lemma mem_digitsLoop {base : ℕ} (h2 : 2 ≤ base) (h36 : base ≤ 36) (rounds : ℕ) {n : ℕ}
    {acc : GoString} {c : Char} (hc : c ∈ digitsLoop base rounds n acc) :
    c ∈ acc ∨ ∃ d, d < 36 ∧ c = digitChar d := by
  induction rounds generalizing n acc with
  | zero => exact Or.inl hc
  | succ rounds ih =>
    rw [digitsLoop] at hc
    split_ifs at hc with hlt
    · rcases List.mem_cons.mp hc with rfl | hc
      · exact Or.inr ⟨n, by omega, rfl⟩
      · exact Or.inl hc
    · have hmod : n % base < base := Nat.mod_lt _ (by omega)
      rcases ih hc with hc | hd
      · rcases List.mem_cons.mp hc with rfl | hc
        · exact Or.inr ⟨n % base, by omega, rfl⟩
        · exact Or.inl hc
      · exact Or.inr hd

lemma digitsLoop_ne_nil (base rounds n : ℕ) (acc : GoString) :
    digitsLoop base (rounds + 1) n acc ≠ [] := by
  induction rounds generalizing n acc with
  | zero =>
    rw [digitsLoop]
    split_ifs <;> simp [digitsLoop]
  | succ rounds ih =>
    rw [digitsLoop]
    split_ifs
    · simp
    · exact ih _ _

lemma formatUint_ne_nil (n base : ℕ) : formatUint n base ≠ [] := digitsLoop_ne_nil base n n []

lemma parseDigits_formatUint {n base : ℕ} (h2 : 2 ≤ base) (h36 : base ≤ 36) :
    parseDigits base (formatUint n base) 0 = some n :=
  parseDigits_digitsLoop h2 h36 _ (Nat.lt_succ_self n) []

lemma parseInt_formatUint {n base : ℕ} (h2 : 2 ≤ base) (h36 : base ≤ 36) (hn : n ≤ maxOffset) :
    parseInt (formatUint n base) base = some (n : ℤ) := by
  obtain ⟨c, cs, hcs⟩ := List.exists_cons_of_ne_nil (formatUint_ne_nil n base)
  have hdigits : parseDigits base (c :: cs) 0 = some n := hcs ▸ parseDigits_formatUint h2 h36
  -- the first character is a digit, not a sign
  obtain ⟨d, hd, hc⟩ : ∃ d, d < 36 ∧ c = digitChar d := by
    have hmem : c ∈ digitsLoop base (n + 1) n [] := by
      rw [← formatUint, hcs]
      exact List.mem_cons_self
    exact (mem_digitsLoop h2 h36 _ hmem).resolve_left (by simp)
  obtain ⟨hminus, hplus, -⟩ := digitChar_ne hd
  rw [← hc] at hminus hplus
  rw [hcs, parseInt]
  · simp [hdigits, hn]
  · exact fun s h => hminus (List.cons.inj h).1
  · exact fun s h => hplus (List.cons.inj h).1

/-- A number that fits in 64 bits reads back from its digits. -/
lemma parseInt_formatInt {n : ℤ} {base : ℕ} (h2 : 2 ≤ base) (h36 : base ≤ 36) (hn : IsInt64 n) :
    parseInt (formatInt n base) base = some n := by
  obtain ⟨hlow, hhigh⟩ := hn
  rw [formatInt]
  split_ifs with hneg
  · have hle : n.natAbs ≤ 2 ^ 63 := by omega
    have habs : -(n.natAbs : ℤ) = n := by omega
    simp only [parseInt, if_neg (formatUint_ne_nil _ _), parseDigits_formatUint h2 h36,
      Option.bind_some, if_pos hle, Option.map_some, habs]
  · have habs : (n.natAbs : ℤ) = n := by omega
    rw [parseInt_formatUint h2 h36 (by omega), habs]

lemma atoi_itoa {n : ℕ} (hn : n ≤ maxOffset) : atoi (itoa n) = some (n : ℤ) :=
  parseInt_formatUint (by decide) (by decide) hn

lemma itoa_injective : Function.Injective itoa := by
  intro m n h
  have hparse : ∀ k, parseDigits 10 (itoa k) 0 = some k := fun k =>
    parseDigits_formatUint (by decide) (by decide)
  have hm := hparse m
  rw [h, hparse n] at hm
  exact (Option.some.inj hm).symm

lemma dot_notMem_itoa (n : ℕ) : '.' ∉ itoa n := by
  intro h
  rcases mem_digitsLoop (by decide) (by decide) _ h with h | ⟨d, hd, hc⟩
  · simp at h
  · exact (digitChar_ne hd).2.2 hc.symm

/-! ## Bytes in hexadecimal -/

/-- `hex.EncodeToString`. -/
def hexEncode : Bytes → GoString
  | [] => []
  | b :: bs => digitChar (b.toNat / 16) :: digitChar (b.toNat % 16) :: hexEncode bs

/-- `hex.DecodeString`. -/
def hexDecode : GoString → Option Bytes
  | [] => some []
  | [_] => none
  | c :: c' :: cs => do
    let hi ← charDigit c
    let lo ← charDigit c'
    if hi < 16 ∧ lo < 16 then
      let bs ← hexDecode cs
      return UInt8.ofNat (hi * 16 + lo) :: bs
    else none

lemma hexDecode_hexEncode (bs : Bytes) : hexDecode (hexEncode bs) = some bs := by
  induction bs with
  | nil => rfl
  | cons b bs ih =>
    have hb : b.toNat < 256 := b.toNat_lt
    have hbyte : UInt8.ofNat (b.toNat / 16 * 16 + b.toNat % 16) = b := by
      rw [Nat.div_add_mod', UInt8.ofNat_toNat]
    simp only [hexEncode, hexDecode, charDigit_digitChar (show b.toNat / 16 < 36 by omega),
      charDigit_digitChar (show b.toNat % 16 < 36 by omega), ih]
    have hlt : b.toNat / 16 < 16 ∧ b.toNat % 16 < 16 := by omega
    simp only [Option.bind_eq_bind, Option.bind_some, hlt, and_self, if_true, hbyte]
    rfl

/-! ## Names -/

def trimPrefix (s pre : GoString) : GoString :=
  if pre <+: s then s.drop pre.length else s

def trimSuffix (s suf : GoString) : GoString :=
  if suf <:+ s then s.take (s.length - suf.length) else s

/-- The scan of `filepath.Ext` over the name from its end. -/
def extLoop : GoString → GoString → GoString
  | [], _ => []
  | c :: cs, acc =>
    if c = '/' then [] else if c = '.' then c :: acc else extLoop cs (c :: acc)

/-- `filepath.Ext`. -/
def fileExt (s : GoString) : GoString := extLoop s.reverse []

lemma fileExt_eq_nil {s : GoString} (h : '.' ∉ s) : fileExt s = [] := by
  have hloop : ∀ cs acc : GoString, '.' ∉ cs → extLoop cs acc = [] := by
    intro cs
    induction cs with
    | nil => exact fun _ _ => rfl
    | cons c cs ih =>
      intro acc hc
      rw [List.mem_cons, not_or] at hc
      rw [extLoop, if_neg (Ne.symm hc.1), ih _ hc.2, ite_self]
  exact hloop _ _ (by simpa using h)

lemma trimPrefix_append (pre s : GoString) : trimPrefix (pre ++ s) pre = s := by
  simp [trimPrefix]

lemma trimSuffix_nil (s : GoString) : trimSuffix s [] = s := by
  simp [trimSuffix]

end Usbd
