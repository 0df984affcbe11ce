import Pvz.Auth.Base64
import Mathlib.Data.Nat.Bitwise

/-!
# Stored password hashes and `Basic` credentials

`hashPasswordSHA256` and `checkPassword` (`src/pkg/repository/order.go:582-632`)
store a password as `salt:digest`, the 16 random bytes of `generateSalt(16)`
and `sha256(salt ‖ password)`, each as `StdEncoding` text; `checkPassword`
splits at `:`, decodes both parts, hashes again and compares with
`subtle.ConstantTimeCompare`. `parseBasicAuth` (`src/pkg/grpc/server.go:171-192`)
takes `username:password` out of an `Authorization: Basic` header.

Go strings are byte strings, and so are the strings here. The hash function is
a parameter (`sha256`): nothing below depends on what it computes, only that
it returns 32 bytes.

* `constantTimeCompare_eq_one`: the byte-wise `XOR`/`OR` loop returns `1`
  exactly for equal slices.
* `checkPassword_hashPasswordSHA256`: a stored hash accepts a password exactly
  when it hashes under the stored salt as the one it was made from, so always
  the password itself, whatever the salt and the hash function.
* `parseBasicAuth_eq_some_iff`: a header yields credentials exactly when it is
  the prefix and text that decodes to them around their only `:`; so a header
  reads back as the credentials it encodes when neither holds a `:`
  (`parseBasicAuth_encode`), and a password with a `:` never reaches
  `CheckPassword` through the gRPC interceptor.
-/

namespace Pvz.Auth

/-- `[]byte(s)` of a string literal of the source. -/
def bytes (s : String) : List UInt8 := s.toUTF8.data.toList

/-- What `hash.Sum(nil)` of a `sha256` hash returns: 32 bytes. -/
structure Digest where
  bytes : List UInt8
  length : bytes.length = 32

/-- The 16 bytes `generateSalt(16)` reads from `crypto/rand`. -/
structure Salt where
  bytes : List UInt8
  length : bytes.length = 16

/-- A hash that keeps the first 32 bytes of its input, padded with zeros, and
the salt of zeros: fixed values the theorems are run on. Under the salt of
zeros it tells apart passwords of at most 16 bytes that do not end in a zero
byte. -/
def padDigest : List UInt8 → Digest := fun bs => ⟨(bs ++ List.replicate 32 0).take 32, by simp⟩
def zeroSalt : Salt := ⟨List.replicate 16 0, rfl⟩

/-! ## `subtle.ConstantTimeCompare` -/

/-- `ConstantTimeByteEq(x, 0)`: `int((uint32(x) - 1) >> 31)`, with the
subtraction wrapping modulo `2^32`. -/
def constantTimeByteEq (x : Nat) : Nat := (x + 4294967295) % 4294967296 / 2147483648

/-- `ConstantTimeCompare`: `0` for slices of different lengths, else
`ConstantTimeByteEq` of the `OR` of the bytes' `XOR`s. -/
def constantTimeCompare (x y : List UInt8) : Nat :=
  if x.length ≠ y.length then 0
  else constantTimeByteEq ((x.zip y).foldl (fun v p => v ||| (p.1.toNat ^^^ p.2.toNat)) 0)

theorem lor_eq_zero {x y : Nat} : x ||| y = 0 ↔ x = 0 ∧ y = 0 := by
  refine ⟨fun h => ⟨Nat.eq_of_testBit_eq fun i => ?_, Nat.eq_of_testBit_eq fun i => ?_⟩, fun h => by
    rw [h.1, h.2]; rfl⟩ <;>
  · have := congrArg (Nat.testBit · i) h
    simp only [Nat.testBit_lor, Nat.zero_testBit, Bool.or_eq_false_iff] at this
    simp only [this, Nat.zero_testBit]

theorem constantTimeByteEq_eq_one {x : Nat} (hx : x < 256) : constantTimeByteEq x = 1 ↔ x = 0 := by
  unfold constantTimeByteEq
  omega

/-- The accumulator of the loop is zero exactly when the bytes agree. -/
theorem foldl_xor_eq_zero (v : Nat) (x y : List UInt8) (hlen : x.length = y.length) :
    (x.zip y).foldl (fun v p => v ||| (p.1.toNat ^^^ p.2.toNat)) v = 0 ↔ v = 0 ∧ x = y := by
  induction x generalizing v y with
  | nil => cases y <;> simp_all
  | cons a x ih =>
    cases y with
    | nil => simp at hlen
    | cons b y =>
      simp only [List.zip_cons_cons, List.foldl_cons, List.length_cons, Nat.add_right_cancel_iff] at hlen ⊢
      have hab : a.toNat = b.toNat ↔ a = b := ⟨UInt8.toNat.inj, congrArg _⟩
      rw [ih _ _ hlen, lor_eq_zero, Nat.xor_eq_zero, List.cons.injEq, hab, and_assoc]

theorem foldl_xor_lt (v : Nat) (hv : v < 256) (x y : List UInt8) :
    (x.zip y).foldl (fun v p => v ||| (p.1.toNat ^^^ p.2.toNat)) v < 256 := by
  induction x generalizing v y with
  | nil => cases y <;> exact hv
  | cons a x ih =>
    cases y with
    | nil => exact hv
    | cons b y =>
      exact ih _ (@Nat.or_lt_two_pow _ _ 8 hv (Nat.xor_lt_two_pow a.toNat_lt_size b.toNat_lt_size)) y

/-- The constant-time loop agrees with plain equality. -/
theorem constantTimeCompare_eq_one (x y : List UInt8) : constantTimeCompare x y = 1 ↔ x = y := by
  unfold constantTimeCompare
  split
  · rename_i hlen
    exact ⟨nofun, fun h => absurd (congrArg List.length h) hlen⟩
  · rename_i hlen
    rw [constantTimeByteEq_eq_one (foldl_xor_lt 0 (by omega) x y), foldl_xor_eq_zero 0 x y (not_not.1 hlen)]
    exact ⟨fun h => h.2, fun h => ⟨rfl, h⟩⟩

/-! ## The stored hash -/

section

variable (sha256 : List UInt8 → Digest)

/-- `hashPasswordSHA256` with the salt `generateSalt(16)` read:
`fmt.Sprintf("%s:%s", salt, hash)`, both in `StdEncoding`. -/
def hashPasswordSHA256 (salt : Salt) (password : List UInt8) : List UInt8 :=
  Base64.encodeToString salt.bytes ++ 58 :: Base64.encodeToString (sha256 (salt.bytes ++ password)).bytes

/-- `checkPassword`: exactly two parts around `:`, both `StdEncoding` text, and
the password's hash under the decoded salt equal to the decoded digest. -/
def checkPassword (storedHash password : List UInt8) : Bool :=
  match storedHash.splitOn 58 with
  | [salt, hash] =>
    match Base64.decodeString salt, Base64.decodeString hash with
    | some salt, some storedPasswordHash => constantTimeCompare (sha256 (salt ++ password)).bytes storedPasswordHash = 1
    | _, _ => false
  | _ => false

theorem splitOn_sep {a b : List UInt8} (ha : (58 : UInt8) ∉ a) (hb : (58 : UInt8) ∉ b) :
    (a ++ 58 :: b).splitOn 58 = [a, b] := by
  have hx : ∀ l ∈ [a, b], (58 : UInt8) ∉ l := by
    simp only [List.mem_cons, List.not_mem_nil, or_false, forall_eq_or_imp, forall_eq]
    exact ⟨ha, hb⟩
  have h := List.splitOn_intercalate [a, b] (58 : UInt8) hx (List.cons_ne_nil _ _)
  simpa only [List.intercalate, List.intersperse, List.flatten, List.append_assoc, List.singleton_append,
    List.append_nil] using h

theorem Digest.ext {d d' : Digest} (h : d.bytes = d'.bytes) : d = d' := by
  cases d; cases d'; cases h; rfl

/-- A stored hash accepts a password exactly when it hashes under the stored
salt as the password the hash was made from. -/
theorem checkPassword_hashPasswordSHA256 (salt : Salt) (password candidate : List UInt8) :
    checkPassword sha256 (hashPasswordSHA256 sha256 salt password) candidate = true ↔
      sha256 (salt.bytes ++ candidate) = sha256 (salt.bytes ++ password) := by
  rw [checkPassword, hashPasswordSHA256,
    splitOn_sep (Base64.not_mem_encodeToString _) (Base64.not_mem_encodeToString _)]
  simp only [Base64.decodeString_encodeToString, decide_eq_true_eq, constantTimeCompare_eq_one]
  exact ⟨Digest.ext, fun h => by rw [h]⟩

/-- The password a hash was made from is accepted by it. -/
theorem checkPassword_own (salt : Salt) (password : List UInt8) :
    checkPassword sha256 (hashPasswordSHA256 sha256 salt password) password = true :=
  (checkPassword_hashPasswordSHA256 sha256 salt password password).2 rfl

/-- The stored text has 69 bytes: 24 for the salt, the `:`, 44 for the digest. -/
theorem length_hashPasswordSHA256 (salt : Salt) (password : List UInt8) :
    (hashPasswordSHA256 sha256 salt password).length = 69 := by
  simp only [hashPasswordSHA256, List.length_append, List.length_cons, Base64.length_encodeToString, salt.length,
    (sha256 _).length]

end

/-! ## `Basic` credentials -/

/-- `"Basic "`. -/
def basicPrefix : List UInt8 := bytes "Basic "

/-- `parseBasicAuth`: the prefix, then `StdEncoding` text of exactly two parts
around `:`; `none` for its `ok = false`. -/
def parseBasicAuth (auth : List UInt8) : Option (List UInt8 × List UInt8) :=
  if basicPrefix.isPrefixOf auth then
    match Base64.decodeString (auth.drop basicPrefix.length) with
    | some c =>
      match c.splitOn 58 with
      | [username, password] => some (username, password)
      | _ => none
    | none => none
  else none

/-- A header whose text decodes to credentials without `:` yields them. -/
theorem parseBasicAuth_decode {t username password : List UInt8}
    (ht : Base64.decodeString t = some (username ++ 58 :: password)) (hu : (58 : UInt8) ∉ username)
    (hp : (58 : UInt8) ∉ password) : parseBasicAuth (basicPrefix ++ t) = some (username, password) := by
  rw [parseBasicAuth, if_pos (List.isPrefixOf_iff_prefix.2 (List.prefix_append _ _)), List.drop_left, ht]
  simp only [splitOn_sep hu hp]

/-- The header a client builds from credentials without `:`, read back. -/
theorem parseBasicAuth_encode {username password : List UInt8} (hu : (58 : UInt8) ∉ username)
    (hp : (58 : UInt8) ∉ password) :
    parseBasicAuth (basicPrefix ++ Base64.encodeToString (username ++ 58 :: password)) = some (username, password) :=
  parseBasicAuth_decode (Base64.decodeString_encodeToString _) hu hp

theorem not_mem_of_splitOnP (P : UInt8 → Bool) (xs : List UInt8) : ∀ l ∈ xs.splitOnP P, ∀ x ∈ l, P x = false := by
  induction xs with
  | nil => simp
  | cons a xs ih =>
    rw [List.splitOnP_cons]
    split
    · rintro l (_ | ⟨_, hl⟩)
      · nofun
      · exact ih l hl
    · rename_i ha
      cases h : xs.splitOnP P with
      | nil => exact absurd h (List.splitOnP_ne_nil _ _)
      | cons l ls =>
        rw [h] at ih
        rintro l' (_ | ⟨_, hl'⟩)
        · rintro x (_ | ⟨_, hx⟩)
          · simpa using ha
          · exact ih l (List.mem_cons_self _ _) x hx
        · exact ih l' (List.mem_cons_of_mem _ hl')

/-- The credentials a header yields: the prefix, then text that decodes to
them around their only `:`. -/
theorem parseBasicAuth_sound {auth username password : List UInt8}
    (h : parseBasicAuth auth = some (username, password)) :
    (58 : UInt8) ∉ username ∧ (58 : UInt8) ∉ password ∧
      ∃ t, auth = basicPrefix ++ t ∧ Base64.decodeString t = some (username ++ 58 :: password) := by
  unfold parseBasicAuth at h
  split at h
  · rename_i hpre
    split at h
    · rename_i c hc
      split at h
      · rename_i u p hsplit
        cases h
        have hparts := not_mem_of_splitOnP (· == 58) c
        simp only [List.splitOn] at hsplit
        rw [hsplit] at hparts
        have hc' : c = username ++ 58 :: password := by
          have := List.intercalate_splitOn c (58 : UInt8)
          simp only [List.splitOn, hsplit, List.intercalate, List.intersperse, List.flatten, List.append_assoc,
            List.singleton_append, List.append_nil] at this
          exact this.symm
        refine ⟨fun hm => ?_, fun hm => ?_, auth.drop basicPrefix.length, ?_, hc' ▸ hc⟩
        · simpa using hparts _ (List.mem_cons_self _ _) _ hm
        · simpa using hparts _ (List.mem_cons_of_mem _ (List.mem_cons_self _ _)) _ hm
        · obtain ⟨t, ht⟩ := List.isPrefixOf_iff_prefix.1 hpre
          rw [← ht, List.drop_left]
      · cases h
    · cases h
  · cases h

/-- What `parseBasicAuth` accepts is exactly the prefix and text that decodes
to the two parts around their only `:`. -/
theorem parseBasicAuth_eq_some_iff {auth username password : List UInt8} :
    parseBasicAuth auth = some (username, password) ↔
      (58 : UInt8) ∉ username ∧ (58 : UInt8) ∉ password ∧
        ∃ t, auth = basicPrefix ++ t ∧ Base64.decodeString t = some (username ++ 58 :: password) :=
  ⟨parseBasicAuth_sound, fun ⟨hu, hp, _, ht, hd⟩ => ht ▸ parseBasicAuth_decode hd hu hp⟩

end Pvz.Auth
