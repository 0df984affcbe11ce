import Mathlib.Data.List.Basic

/-!
# `encoding/base64` with `StdEncoding`

`hashPasswordSHA256` and `checkPassword` (`src/pkg/repository/order.go:592-632`)
store a salt and a digest as `StdEncoding` text, and `parseBasicAuth`
(`src/pkg/grpc/server.go:171-199`) reads the credentials of an `Authorization`
header through `StdEncoding.DecodeString`. The package is Go's standard
library, not under `src/`; the model follows its `Encode` and `Decode` loops
on the text as bytes.

* `encodeToString` writes four symbols of the alphabet per three bytes and
  pads the last group with `=`.
* `decodeString` is `Decode`'s `decodeQuantum` loop: it skips `\n` and `\r`
  anywhere, takes `=` only as the end of a group of two or three symbols
  (followed by nothing but line breaks), refuses every other byte outside the
  alphabet and an unfinished group, and ignores the bits a padded group does
  not fill (`StdEncoding` is not `Strict`).

`encodeToString_spec`: every byte string comes back from its text, which has
`EncodedLen` symbols and holds no `:`, the separator of the stored hash's
format and of the `Basic` credentials.
-/

namespace Pvz.Base64

/-- `encodeStd`, `"ABCDEFGHIJKLMNOPQRSTUVWXYZabcdefghijklmnopqrstuvwxyz0123456789+/"`:
the symbol of a six-bit value. -/
def encodeStd (i : Nat) : UInt8 :=
  if i < 26 then UInt8.ofNat (65 + i)
  else if i < 52 then UInt8.ofNat (71 + i)
  else if i < 62 then UInt8.ofNat (i - 4)
  else if i = 62 then 43
  else 47

/-- The table `StdEncoding`'s `decodeMap` holds: the value of a symbol, `none`
for the `0xFF` of every other byte. -/
def decodeStd (c : UInt8) : Option Nat :=
  if 65 ≤ c.toNat ∧ c.toNat ≤ 90 then some (c.toNat - 65)
  else if 97 ≤ c.toNat ∧ c.toNat ≤ 122 then some (c.toNat - 71)
  else if 48 ≤ c.toNat ∧ c.toNat ≤ 57 then some (c.toNat + 4)
  else if c = 43 then some 62
  else if c = 47 then some 63
  else none

/-- The four symbols of a 24-bit group `val`: `encode[val>>18&0x3F]` and so on. -/
def symbols (val : Nat) : List UInt8 :=
  [encodeStd (val / 262144 % 64), encodeStd (val / 4096 % 64), encodeStd (val / 64 % 64), encodeStd (val % 64)]

/-- `Encode` into the text `EncodeToString` returns: full groups of three
bytes, then the remaining one or two with `=` for each missing symbol. -/
def encodeToString : List UInt8 → List UInt8
  | a :: b :: c :: rest => symbols (a.toNat * 65536 + b.toNat * 256 + c.toNat) ++ encodeToString rest
  | [a, b] => (symbols (a.toNat * 65536 + b.toNat * 256)).take 3 ++ [61]
  | [a] => (symbols (a.toNat * 65536)).take 2 ++ [61, 61]
  | [] => []

/-- The three bytes of a 24-bit group: `byte(val>>16)`, `byte(val>>8)`, `byte(val)`. -/
def groupBytes (val : Nat) : List UInt8 := [UInt8.ofNat (val / 65536), UInt8.ofNat (val / 256), UInt8.ofNat val]

/-- The line breaks `decodeQuantum` skips after a padding symbol. -/
def skipNewlines : List UInt8 → List UInt8 := List.dropWhile fun c => c = 10 ∨ c = 13

/-- The end of the input after a group's first `=`, with `j` symbols of value
`acc` read: two symbols need a second `=`, and only line breaks may follow. -/
def padEnd (s : List UInt8) (j acc : Nat) : Option (List UInt8) :=
  if j = 2 then
    match skipNewlines s with
    | c :: t => if c = 61 ∧ skipNewlines t = [] then some ((groupBytes (acc * 4096)).take 1) else none
    | [] => none
  else if j = 3 then
    if skipNewlines s = [] then some ((groupBytes (acc * 64)).take 2) else none
  else none

/-- `Decode`, one symbol at a time, with `j` symbols of the current group read
and `acc` their value: a group's fourth symbol writes its three bytes, a line
break is skipped, and `=` ends the input. -/
def decode : List UInt8 → Nat → Nat → Option (List UInt8)
  | [], j, _ => if j = 0 then some [] else none
  | c :: s, j, acc =>
    match decodeStd c with
    | some v =>
      if j = 3 then (decode s 0 0).map (groupBytes (acc * 64 + v) ++ ·)
      else decode s (j + 1) (acc * 64 + v)
    | none =>
      if c = 10 ∨ c = 13 then decode s j acc
      else if c = 61 then padEnd s j acc
      else none

/-- `StdEncoding.DecodeString`: the bytes, or `none` for its `CorruptInputError`. -/
def decodeString (s : List UInt8) : Option (List UInt8) := decode s 0 0

example : (List.range 64).map encodeStd =
    "ABCDEFGHIJKLMNOPQRSTUVWXYZabcdefghijklmnopqrstuvwxyz0123456789+/".toList.map (·.toNat.toUInt8) := by
  decide

/-! ## The round trip -/

theorem decodeStd_encodeStd : ∀ i < 64, decodeStd (encodeStd i) = some i := by decide

theorem encodeStd_ne : ∀ i < 64, encodeStd i ≠ 58 ∧ encodeStd i ≠ 61 := by decide

theorem decodeStd_pad : decodeStd 61 = none := rfl

/-- Reading a symbol of the group. -/
theorem decode_symbol {i : Nat} (hi : i < 64) {j : Nat} (hj : j ≠ 3) (s : List UInt8) (acc : Nat) :
    decode (encodeStd i :: s) j acc = decode s (j + 1) (acc * 64 + i) := by
  rw [decode, decodeStd_encodeStd i hi]
  exact if_neg hj

/-- Reading the fourth symbol of a group. -/
theorem decode_last {i : Nat} (hi : i < 64) (s : List UInt8) (acc : Nat) :
    decode (encodeStd i :: s) 3 acc = (decode s 0 0).map (groupBytes (acc * 64 + i) ++ ·) := by
  rw [decode, decodeStd_encodeStd i hi]
  exact if_pos rfl

theorem decode_pad (s : List UInt8) (j acc : Nat) : decode (61 :: s) j acc = padEnd s j acc := by
  rw [decode, decodeStd_pad]
  exact if_neg (by decide)

theorem ofNat_byte {n : Nat} (a : UInt8) (h : n % 256 = a.toNat) : UInt8.ofNat n = a :=
  UInt8.toNat.inj h

/-- The first two, three and four sextets of a 24-bit value, put back
together as `decode` accumulates them. -/
theorem two_sextets {n : Nat} (h : n < 16777216) : (0 * 64 + n / 262144 % 64) * 64 + n / 4096 % 64 = n / 4096 := by
  omega

theorem three_sextets {n : Nat} (h : n < 16777216) :
    ((0 * 64 + n / 262144 % 64) * 64 + n / 4096 % 64) * 64 + n / 64 % 64 = n / 64 := by
  rw [two_sextets h]; omega

theorem four_sextets {n : Nat} (h : n < 16777216) :
    (((0 * 64 + n / 262144 % 64) * 64 + n / 4096 % 64) * 64 + n / 64 % 64) * 64 + n % 64 = n := by
  rw [three_sextets h]; omega

theorem groupBytes_bytes (a b c : UInt8) : groupBytes (a.toNat * 65536 + b.toNat * 256 + c.toNat) = [a, b, c] := by
  have ha := a.toNat_lt_size
  have hb := b.toNat_lt_size
  have hc := c.toNat_lt_size
  simp only [UInt8.size] at ha hb hc
  simp only [groupBytes, List.cons.injEq, and_true]
  exact ⟨ofNat_byte a (by omega), ofNat_byte b (by omega), ofNat_byte c (by omega)⟩

/-- A full group's symbols read back as its three bytes. -/
theorem decode_symbols (a b c : UInt8) (s : List UInt8) :
    decode (symbols (a.toNat * 65536 + b.toNat * 256 + c.toNat) ++ s) 0 0 =
      (decode s 0 0).map ([a, b, c] ++ ·) := by
  have hlt : a.toNat * 65536 + b.toNat * 256 + c.toNat < 16777216 := by
    have ha := a.toNat_lt_size
    have hb := b.toNat_lt_size
    have hc := c.toNat_lt_size
    simp only [UInt8.size] at ha hb hc
    omega
  have h64 : ∀ n, n % 64 < 64 := fun n => Nat.mod_lt _ (by omega)
  simp only [symbols, List.cons_append, List.nil_append]
  rw [decode_symbol (h64 _) (by omega), decode_symbol (h64 _) (by omega), decode_symbol (h64 _) (by omega),
    decode_last (h64 _), four_sextets hlt, groupBytes_bytes]
  rfl

theorem padEnd_three (acc : Nat) :
    padEnd [] 3 acc = some [UInt8.ofNat (acc * 64 / 65536), UInt8.ofNat (acc * 64 / 256)] := rfl

theorem padEnd_two (acc : Nat) : padEnd [61] 2 acc = some [UInt8.ofNat (acc * 4096 / 65536)] := rfl

/-- Every byte string comes back from the text `EncodeToString` writes. -/
theorem decodeString_encodeToString (bs : List UInt8) : decodeString (encodeToString bs) = some bs := by
  have h64 : ∀ n, n % 64 < 64 := fun n => Nat.mod_lt _ (by omega)
  induction bs using encodeToString.induct with
  | case1 a b c rest ih =>
    rw [decodeString, encodeToString, decode_symbols, ← decodeString, ih]
    rfl
  | case2 a b =>
    have ha := a.toNat_lt_size
    have hb := b.toNat_lt_size
    simp only [UInt8.size] at ha hb
    simp only [decodeString, encodeToString, symbols, List.take, List.cons_append, List.nil_append]
    rw [decode_symbol (h64 _) (by omega), decode_symbol (h64 _) (by omega), decode_symbol (h64 _) (by omega),
      decode_pad]
    change padEnd [] 3 _ = _
    rw [padEnd_three, three_sextets (by omega), ofNat_byte a (by omega), ofNat_byte b (by omega)]
  | case3 a =>
    have ha := a.toNat_lt_size
    simp only [UInt8.size] at ha
    simp only [decodeString, encodeToString, symbols, List.take, List.cons_append, List.nil_append]
    rw [decode_symbol (h64 _) (by omega), decode_symbol (h64 _) (by omega), decode_pad]
    change padEnd [61] 2 _ = _
    rw [padEnd_two, two_sextets (by omega), ofNat_byte a (by omega)]
  | case4 => rfl

/-! ## The text -/

theorem not_mem_symbols (val : Nat) : (58 : UInt8) ∉ symbols val := by
  have h64 : ∀ n, n % 64 < 64 := fun n => Nat.mod_lt _ (by omega)
  simp only [symbols, List.mem_cons, List.not_mem_nil, or_false, not_or]
  exact ⟨(encodeStd_ne _ (h64 _)).1.symm, (encodeStd_ne _ (h64 _)).1.symm, (encodeStd_ne _ (h64 _)).1.symm,
    (encodeStd_ne _ (h64 _)).1.symm⟩

/-- The text holds no `:`. -/
theorem not_mem_encodeToString (bs : List UInt8) : (58 : UInt8) ∉ encodeToString bs := by
  induction bs using encodeToString.induct with
  | case1 a b c rest ih =>
    rw [encodeToString, List.mem_append, not_or]
    exact ⟨not_mem_symbols _, ih⟩
  | case2 a b =>
    rw [encodeToString, List.mem_append, not_or]
    exact ⟨fun h => not_mem_symbols _ (List.mem_of_mem_take h), by decide⟩
  | case3 a =>
    rw [encodeToString, List.mem_append, not_or]
    exact ⟨fun h => not_mem_symbols _ (List.mem_of_mem_take h), by decide⟩
  | case4 => exact List.not_mem_nil _

/-- `EncodedLen`: four symbols for each group of three bytes begun. -/
theorem length_encodeToString (bs : List UInt8) : (encodeToString bs).length = 4 * ((bs.length + 2) / 3) := by
  induction bs using encodeToString.induct with
  | case1 a b c rest ih =>
    rw [encodeToString, List.length_append, ih]
    simp only [symbols, List.length_cons, List.length_nil]
    omega
  | case2 | case3 => simp [encodeToString, symbols]
  | case4 => rfl

/-- `EncodeToString` and `DecodeString`: every byte string comes back from its
text, which has four symbols for each group of three bytes begun and no `:`. -/
theorem encodeToString_spec (bs : List UInt8) :
    decodeString (encodeToString bs) = some bs ∧ (encodeToString bs).length = 4 * ((bs.length + 2) / 3) ∧
      (58 : UInt8) ∉ encodeToString bs :=
  ⟨decodeString_encodeToString bs, length_encodeToString bs, not_mem_encodeToString bs⟩

end Pvz.Base64
