import Pvz.Audit.Log
import Mathlib.Data.String.Basic
import Mathlib.Data.Rat.Lemmas
import Mathlib.Data.Nat.Prime.Basic
import Mathlib.Algebra.Order.Field.Power
import Mathlib.Algebra.Order.Field.Rat
import Mathlib.Tactic.Ring
import Mathlib.Tactic.NormNum.Ineq
import Mathlib.Data.Nat.Cast.Field

/-!
# The body's JSON text

`fromAuditLog` stores an event's body as the text `json.Marshal` writes, and
`toAuditLog` reads it back with `json.Unmarshal` into an `any`
(`src/pkg/repository/order.go:480-490, 536-546`). Both are `encoding/json`'s,
modelled here on the values `Json` stands for from the package's documented
behaviour:

* `marshal` writes `null`, `true`, `false`, numbers, strings with
  `appendString`'s escapes (HTML-safe, as `json.Marshal` asks), arrays, and
  maps with their keys in sorted order;
* `unmarshal` accepts the JSON grammar of the package's scanner, with
  whitespace between tokens, and builds what `d.value` builds into an `any`:
  `float64`s, strings unquoted as `unquote` does, `[]any`, and
  `map[string]any` with a repeated key's last value.

A Go map is its entries in increasing key order (`mapInsert`). Go compares
strings bytewise in UTF-8, which orders them as their code points, as `<` on
`String` does.

Numbers are exact. `json.Marshal` writes a `float64` with the fewest digits
that `strconv.ParseFloat` reads back to it, and `json.Unmarshal` rounds to the
nearest `float64`, refusing a number whose rounding overflows. Here `marshal`
writes the exact decimal expansion every `float64` has, in `'f'` format, and
`unmarshal` reads a decimal exactly, with the same refusal; each side gives
the other the `float64` it started from.

`Marshalable.unmarshal_marshal`: a value whose numbers are `float64`s and
whose objects are Go maps comes back from its text.
-/

namespace Pvz.Json

/-- A finite `float64`: `m · 2^e` with a 53-bit significand and the
exponents of IEEE 754 binary64, subnormals included. -/
def IsFloat64 (x : ℚ) : Prop :=
  ∃ m e : ℤ, m.natAbs < 2 ^ 53 ∧ -1074 ≤ e ∧ e ≤ 971 ∧ x = m * 2 ^ e

/-- A value a Go `any` built from `nil`, `bool`, finite `float64`, `string`,
`[]any` and `map[string]any` holds: its numbers are `float64`s and its
objects Go maps, their keys in increasing order. -/
inductive Marshalable : Json → Prop
  | null : Marshalable .null
  | bool (b : Bool) : Marshalable (.bool b)
  | num {x : ℚ} : IsFloat64 x → Marshalable (.num x)
  | str (s : String) : Marshalable (.str s)
  | arr {xs : List Json} : (∀ v ∈ xs, Marshalable v) → Marshalable (.arr xs)
  | obj {kvs : List (String × Json)} : (kvs.map (·.1)).Pairwise (· < ·) → (∀ kv ∈ kvs, Marshalable kv.2) →
      Marshalable (.obj kvs)

/-! ## `json.Marshal` -/

/-- `htmlSafeSet`: the ASCII characters `appendString` writes as they are
under `escapeHTML`, the printable ones but `"`, `\`, `<`, `>` and `&`. -/
def htmlSafe (c : Char) : Bool :=
  0x20 ≤ c.toNat && c.toNat < 0x80 && c != '"' && c != '\\' && c != '<' && c != '>' && c != '&'

/-- What `appendString` writes for one character of a valid UTF-8 string:
short escapes, `\u00XX` for the other control characters and `<`, `>`, `&`,
and `\u2028`, `\u2029` for the line and paragraph separators. -/
def escapeChar (c : Char) : List Char :=
  if c.toNat < 0x80 then
    if htmlSafe c then [c] else
    match c with
    | '\\' | '"' => ['\\', c]
    | '\x08' => ['\\', 'b']
    | '\x0c' => ['\\', 'f']
    | '\n' => ['\\', 'n']
    | '\r' => ['\\', 'r']
    | '\t' => ['\\', 't']
    | _ => ['\\', 'u', '0', '0', Nat.digitChar (c.toNat / 16), Nat.digitChar (c.toNat % 16)]
  else if c = '\u2028' ∨ c = '\u2029' then ['\\', 'u', '2', '0', '2', Nat.digitChar (c.toNat % 16)]
  else [c]

/-- `appendString`: the string in quotes, each character escaped. -/
def appendString (s : String) : List Char := '"' :: s.toList.flatMap escapeChar ++ ['"']

/-- `n` in `w` decimal digits, most significant first. -/
def padDigits : Nat → Nat → List Char
  | 0, _ => []
  | w + 1, n => Nat.digitChar (n / 10 ^ w % 10) :: padDigits w n

/-- The number of decimal digits of `n`, one for zero, within `fuel`
divisions. -/
def widthAux : Nat → Nat → Nat
  | 0, _ => 1
  | fuel + 1, n => if n < 10 then 1 else widthAux fuel (n / 10) + 1

/-- The decimal digits of `n` without leading zeros, `0` for zero. -/
def decimal (n : Nat) : List Char := padDigits (widthAux n n) n

/-- The fewest decimal places that write `x` exactly, found among those up
to its denominator. -/
def fracDigits (x : ℚ) : Nat := ((List.range (x.den + 1)).find? fun k => 10 ^ k % x.den == 0).getD 0

/-- `floatEncoder` on a number, as its exact decimal expansion: the sign, the
integer part, and the fraction's digits after a point. -/
def formatFloat (x : ℚ) : List Char :=
  let k := fracDigits x
  let n := x.num * (10 ^ k / x.den : ℕ)
  (if n < 0 then ['-'] else []) ++ decimal (n.natAbs / 10 ^ k) ++
    if k = 0 then [] else '.' :: padDigits k (n.natAbs % 10 ^ k)

mutual

/-- `json.Marshal`. -/
def marshal : Json → List Char
  | .null => "null".toList
  | .bool true => "true".toList
  | .bool false => "false".toList
  | .num x => formatFloat x
  | .str s => appendString s
  | .arr [] => ['[', ']']
  | .arr (v :: vs) => '[' :: marshal v ++ marshalElems vs ++ [']']
  | .obj [] => ['{', '}']
  | .obj ((k, v) :: kvs) => '{' :: appendString k ++ ':' :: marshal v ++ marshalMembers kvs ++ ['}']

/-- The array encoder's later elements, each after a comma. -/
def marshalElems : List Json → List Char
  | [] => []
  | v :: vs => ',' :: marshal v ++ marshalElems vs

/-- The map encoder's later entries, each after a comma. -/
def marshalMembers : List (String × Json) → List Char
  | [] => []
  | (k, v) :: kvs => ',' :: appendString k ++ ':' :: marshal v ++ marshalMembers kvs

end

/-! ## `json.Unmarshal` into an `any` -/

/-- `isSpace`: the whitespace the scanner skips between tokens. -/
def isSpace (c : Char) : Bool := c = ' ' || c = '\t' || c = '\r' || c = '\n'

def skipSpace : List Char → List Char
  | c :: s => if isSpace c then skipSpace s else c :: s
  | [] => []

/-- The value of a hexadecimal digit, in either case. -/
def hexValue (c : Char) : Option Nat :=
  if c.isDigit then some (c.toNat - 48)
  else if 'a' ≤ c ∧ c ≤ 'f' then some (c.toNat - 87)
  else if 'A' ≤ c ∧ c ≤ 'F' then some (c.toNat - 55)
  else none

/-- `getu4`: the UTF-16 code unit of four hexadecimal digits. -/
def getu4 (a b c d : Char) : Option Nat := do
  return 4096 * (← hexValue a) + 256 * (← hexValue b) + 16 * (← hexValue c) + (← hexValue d)

/-- `utf16.IsSurrogate`. -/
def isSurrogate (r : Nat) : Bool := 0xD800 ≤ r && r < 0xE000

/-- `utf16.DecodeRune`: the character of a surrogate pair, else `U+FFFD`. -/
def decodeRune (r1 r2 : Nat) : Char :=
  if 0xD800 ≤ r1 ∧ r1 < 0xDC00 ∧ 0xDC00 ≤ r2 ∧ r2 < 0xE000 then
    Char.ofNat ((r1 - 0xD800) * 0x400 + (r2 - 0xDC00) + 0x10000)
  else '\uFFFD'

/-- One more character at the front of an unquoted string. -/
def push (c : Char) : Option (List Char × List Char) → Option (List Char × List Char) :=
  Option.map fun p => (c :: p.1, p.2)

/-- A string token after its opening quote, unquoted as `unquote` does, one
character or escape per unit of `fuel`: the characters up to the closing
quote, and the text after it. A control character, a bad escape or a missing
quote is the scanner's syntax error; a surrogate that is not the first half of
a pair becomes `U+FFFD`. -/
def unquote : Nat → List Char → Option (List Char × List Char)
  | 0, _ => none
  | n + 1, s =>
    match s with
    | [] => none
    | c :: s =>
      if c = '"' then some ([], s)
      else if c = '\\' then
        match s with
        | [] => none
        | e :: s =>
          match e with
          | '"' => push '"' (unquote n s)
          | '\\' => push '\\' (unquote n s)
          | '/' => push '/' (unquote n s)
          | 'b' => push '\x08' (unquote n s)
          | 'f' => push '\x0c' (unquote n s)
          | 'n' => push '\n' (unquote n s)
          | 'r' => push '\r' (unquote n s)
          | 't' => push '\t' (unquote n s)
          | 'u' =>
            match s with
            | a :: b :: c :: d :: s =>
              match getu4 a b c d with
              | none => none
              | some r =>
                if isSurrogate r then
                  match s with
                  | '\\' :: 'u' :: a' :: b' :: c' :: d' :: s' =>
                    match getu4 a' b' c' d' with
                    | some r' =>
                      if decodeRune r r' ≠ '\uFFFD' then push (decodeRune r r') (unquote n s')
                      else push '\uFFFD' (unquote n s)
                    | none => push '\uFFFD' (unquote n s)
                  | _ => push '\uFFFD' (unquote n s)
                else push (Char.ofNat r) (unquote n s)
            | _ => none
          | _ => none
      else if c.toNat < 0x20 then none
      else push c (unquote n s)

/-- The run of digits at the front of the text, read into `acc`, with `cnt`
counting them. -/
def readDigits : List Char → Nat → Nat → Nat × Nat × List Char
  | c :: s, acc, cnt => if c.isDigit then readDigits s (10 * acc + (c.toNat - 48)) (cnt + 1) else (acc, cnt, c :: s)
  | [], acc, cnt => (acc, cnt, [])

/-- A number's sign. -/
def takeMinus : List Char → Bool × List Char
  | '-' :: s => (true, s)
  | s => (false, s)

/-- A number's integer part: `0`, or a digit from `1` to `9` and more digits. -/
def parseInt : List Char → Option (Nat × List Char)
  | c :: s =>
    if c = '0' then some (0, s)
    else if c.isDigit then (fun r => (r.1, r.2.2)) <$> some (readDigits (c :: s) 0 0)
    else none
  | [] => none

/-- A number's fraction: nothing, or a point and at least one digit; its
digits' value and how many there are. -/
def parseFrac : List Char → Option (Nat × Nat × List Char)
  | '.' :: s =>
    match readDigits s 0 0 with
    | (_, 0, _) => none
    | r => some r
  | s => some (0, 0, s)

/-- A number's exponent: nothing, or `e` or `E`, a sign, and at least one
digit. -/
def parseExp : List Char → Option (Int × List Char)
  | c :: s =>
    if c = 'e' ∨ c = 'E' then
      let (neg, s) := match s with
        | '+' :: s => (false, s)
        | '-' :: s => (true, s)
        | s => (false, s)
      match readDigits s 0 0 with
      | (_, 0, _) => none
      | (e, _, s) => some (if neg then -(e : Int) else e, s)
    else some (0, c :: s)
  | [] => some (0, [])

/-- A number token, read exactly; `convertNumber`'s `strconv.ParseFloat`
refuses one that rounds past the largest `float64`, from `2^1024 - 2^970`
on. -/
def parseNumber (s : List Char) : Option (ℚ × List Char) := do
  let (neg, s) := takeMinus s
  let (i, s) ← parseInt s
  let (f, k, s) ← parseFrac s
  let (e, s) ← parseExp s
  let v : ℚ := (if neg then -1 else 1) * ((i : ℚ) + f / 10 ^ k) * 10 ^ e
  if 2 ^ 1024 - 2 ^ 970 ≤ |v| then none else some (v, s)

/-- The rest of a literal's letters: the value, and the text after them. -/
def literal (rest : List Char) (v : Json) (s : List Char) : Option (Json × List Char) :=
  if s.take rest.length = rest then some (v, s.drop rest.length) else none

/-- `m[k] = v` on a Go map; keys compare bytewise, as their characters do. -/
def mapInsert (k : String) (v : Json) : List (String × Json) → List (String × Json)
  | [] => [(k, v)]
  | (k', v') :: kvs =>
    if k = k' then (k, v) :: kvs
    else if k.toList < k'.toList then (k, v) :: (k', v') :: kvs
    else (k', v') :: mapInsert k v kvs

mutual

/-- `d.value` into an `any`, on text that starts with the value, within
`fuel` nested calls: the value and the text after it. -/
def parseValue : Nat → List Char → Option (Json × List Char)
  | 0, _ => none
  | _ + 1, [] => none
  | n + 1, c :: s =>
    if c = '-' ∨ c.isDigit then (parseNumber (c :: s)).map fun r => (.num r.1, r.2) else
    match c with
    | 'n' => literal "ull".toList .null s
    | 't' => literal "rue".toList (.bool true) s
    | 'f' => literal "alse".toList (.bool false) s
    | '"' => (unquote n s).map fun r => (.str ⟨r.1⟩, r.2)
    | '[' =>
      match skipSpace s with
      | ']' :: s => some (.arr [], s)
      | s => parseElems n [] s
    | '{' =>
      match skipSpace s with
      | '}' :: s => some (.obj [], s)
      | s => parseMembers n [] s
    | _ => none

/-- The array loop after `[`: an element, then `,` and the next or `]`. -/
def parseElems : Nat → List Json → List Char → Option (Json × List Char)
  | 0, _, _ => none
  | n + 1, acc, s =>
    match parseValue n s with
    | none => none
    | some (v, s) =>
      match skipSpace s with
      | ',' :: s => parseElems n (acc ++ [v]) (skipSpace s)
      | ']' :: s => some (.arr (acc ++ [v]), s)
      | _ => none

/-- The object loop after `{`: a key, `:`, a value, then `,` and the next
entry or `}`. -/
def parseMembers : Nat → List (String × Json) → List Char → Option (Json × List Char)
  | 0, _, _ => none
  | n + 1, acc, s =>
    match s with
    | '"' :: s =>
      match unquote n s with
      | none => none
      | some (k, s) =>
        match skipSpace s with
        | ':' :: s =>
          match parseValue n (skipSpace s) with
          | none => none
          | some (v, s) =>
            match skipSpace s with
            | ',' :: s => parseMembers n (mapInsert ⟨k⟩ v acc) (skipSpace s)
            | '}' :: s => some (.obj (mapInsert ⟨k⟩ v acc), s)
            | _ => none
        | _ => none
    | _ => none

end

/-- `json.Unmarshal` into an `any`: one value, with whitespace around it. -/
def unmarshal (data : List Char) : Option Json :=
  match parseValue (data.length + 1) (skipSpace data) with
  | some (v, rest) => if skipSpace rest = [] then some v else none
  | none => none

/-! ## Strings come back -/

theorem hexValue_digitChar : ∀ d < 16, hexValue (Nat.digitChar d) = some d := by decide

theorem unquote_plain {c : Char} (hq : c ≠ '"') (hb : c ≠ '\\') (hc : ¬ c.toNat < 0x20) (n : Nat)
    (s : List Char) : unquote (n + 1) (c :: s) = push c (unquote n s) := by
  show (if c = '"' then _ else if c = '\\' then _ else if c.toNat < 0x20 then none else push c (unquote n s)) = _
  rw [if_neg hq, if_neg hb, if_neg hc]

/-- `\u00XX` reads back as the ASCII character it escapes. -/
theorem unquote_u00 {c : Char} (hc : c.toNat < 0x80) (n : Nat) (s : List Char) :
    unquote (n + 1) ('\\' :: 'u' :: '0' :: '0' :: Nat.digitChar (c.toNat / 16) :: Nat.digitChar (c.toNat % 16) :: s) =
      push c (unquote n s) := by
  have hu : getu4 '0' '0' (Nat.digitChar (c.toNat / 16)) (Nat.digitChar (c.toNat % 16)) = some c.toNat := by
    rw [getu4, hexValue_digitChar _ (by omega : c.toNat / 16 < 16),
      hexValue_digitChar _ (Nat.mod_lt _ (by omega) : c.toNat % 16 < 16)]
    show some (4096 * 0 + 256 * 0 + 16 * (c.toNat / 16) + c.toNat % 16) = _
    congr 1; omega
  have hs : isSurrogate c.toNat = false := by
    simp only [isSurrogate, Bool.and_eq_false_iff, decide_eq_false_iff_not]; omega
  show (match getu4 '0' '0' (Nat.digitChar (c.toNat / 16)) (Nat.digitChar (c.toNat % 16)) with
    | none => none
    | some r => if isSurrogate r then _ else push (Char.ofNat r) (unquote n s)) = _
  rw [hu]
  show (if isSurrogate c.toNat then _ else _) = _
  rw [hs, if_neg Bool.false_ne_true, Char.ofNat_toNat]

/-- Each character's escape reads back as the character. -/
theorem unquote_escapeChar (c : Char) (n : Nat) (s : List Char) :
    unquote (n + 1) (escapeChar c ++ s) = push c (unquote n s) := by
  unfold escapeChar
  split
  · rename_i hc
    split
    · rename_i hsafe
      simp only [htmlSafe, Bool.and_eq_true, decide_eq_true_eq, bne_iff_ne] at hsafe
      exact unquote_plain hsafe.1.1.1.1.2 hsafe.1.1.1.2 (by omega) n s
    · split <;> first | rfl | exact unquote_u00 hc n s
  · split
    · rename_i h; rcases h with rfl | rfl <;> rfl
    · rename_i hc _
      exact unquote_plain (by rintro rfl; exact hc (by decide)) (by rintro rfl; exact hc (by decide))
        (by omega) n s

/-- A string's escaped characters, then the closing quote. -/
theorem unquote_escaped (t : List Char) (s : List Char) :
    ∀ n, t.length < n → unquote n (t.flatMap escapeChar ++ '"' :: s) = some (t, s) := by
  induction t with
  | nil => rintro (_ | n) h; · omega
           rfl
  | cons c t ih =>
    rintro (_ | n) h
    · omega
    rw [List.flatMap_cons, List.append_assoc, unquote_escapeChar, ih n (by simp only [List.length_cons] at h; omega)]
    rfl

theorem escapeChar_length_pos (c : Char) : 0 < (escapeChar c).length := by
  unfold escapeChar
  split
  · split
    · simp
    · split <;> simp
  · split <;> simp

theorem length_le_flatMap_escapeChar (t : List Char) : t.length ≤ (t.flatMap escapeChar).length := by
  induction t with
  | nil => simp
  | cons c t ih => simp only [List.flatMap_cons, List.length_append, List.length_cons]; have := escapeChar_length_pos c; omega

theorem skipSpace_cons {c : Char} (h : isSpace c = false) (t : List Char) : skipSpace (c :: t) = c :: t := by
  rw [skipSpace, if_neg (by rw [h]; decide)]

theorem appendString_append (k : String) (s : List Char) :
    appendString k ++ s = '"' :: (k.toList.flatMap escapeChar ++ '"' :: s) := by
  simp only [appendString, List.cons_append, List.append_assoc, List.singleton_append, List.nil_append]

theorem mk_toList (k : String) : String.mk k.toList = k := rfl

/-! ## Numbers come back -/

/-- What may follow a value's text inside an enclosing value's, or at the end. -/
def Follows (s : List Char) : Prop := ∀ c ∈ s.head?, c = ',' ∨ c = ']' ∨ c = '}'

theorem Follows.number {s : List Char} (h : Follows s) :
    ∀ c ∈ s.head?, c.isDigit = false ∧ c ≠ '.' ∧ c ≠ 'e' ∧ c ≠ 'E' := by
  intro c hc; rcases h c hc with rfl | rfl | rfl <;> decide

theorem digitChar_spec : ∀ d < 10, (Nat.digitChar d).isDigit = true ∧ (Nat.digitChar d).toNat - 48 = d ∧
    (0 < d → Nat.digitChar d ≠ '0') := by decide

theorem readDigits_padDigits (w n acc cnt : Nat) (s : List Char) :
    readDigits (padDigits w n ++ s) acc cnt = readDigits s (acc * 10 ^ w + n % 10 ^ w) (cnt + w) := by
  induction w generalizing acc cnt with
  | zero => simp [padDigits, Nat.mod_one]
  | succ w ih =>
    obtain ⟨hd, hv, -⟩ := digitChar_spec (n / 10 ^ w % 10) (Nat.mod_lt _ (by norm_num))
    rw [padDigits, List.cons_append, readDigits, if_pos hd, hv, ih, Nat.mod_pow_succ, pow_succ]
    congr 1 <;> ring

theorem readDigits_stop {s : List Char} (hs : ∀ c ∈ s.head?, c.isDigit = false) (acc cnt : Nat) :
    readDigits s acc cnt = (acc, cnt, s) := by
  cases s with
  | nil => rfl
  | cons c s => simp only [readDigits, hs c rfl, Bool.false_eq_true, if_false]

theorem widthAux_pos : ∀ fuel n, 0 < widthAux fuel n
  | 0, _ => Nat.one_pos
  | _ + 1, _ => by unfold widthAux; split <;> omega

theorem lt_pow_widthAux : ∀ fuel n, n ≤ fuel → n < 10 ^ widthAux fuel n
  | 0, n, h => by simp only [widthAux]; omega
  | fuel + 1, n, h => by
    unfold widthAux
    split
    · omega
    · have := lt_pow_widthAux fuel (n / 10) (by omega)
      rw [pow_succ]; omega

theorem pow_widthAux_le : ∀ fuel n, 0 < n → 10 ^ (widthAux fuel n - 1) ≤ n
  | 0, n, h => by simp only [widthAux, Nat.sub_self, pow_zero]; omega
  | fuel + 1, n, h => by
    unfold widthAux
    split
    · simp only [Nat.sub_self, pow_zero]; omega
    · have := pow_widthAux_le fuel (n / 10) (by omega)
      obtain ⟨w, hw⟩ : ∃ w, widthAux fuel (n / 10) = w + 1 :=
        ⟨_, (Nat.succ_pred_eq_of_pos (widthAux_pos fuel (n / 10))).symm⟩
      rw [hw, Nat.add_sub_cancel] at this ⊢
      rw [pow_succ]; omega

/-- A natural number's digits read back as it, when no digit follows. -/
theorem parseInt_decimal (q : Nat) {s : List Char} (hs : ∀ c ∈ s.head?, c.isDigit = false) :
    parseInt (decimal q ++ s) = some (q, s) := by
  rcases Nat.eq_zero_or_pos q with rfl | hq
  · rfl
  obtain ⟨w, hw⟩ : ∃ w, widthAux q q = w + 1 := ⟨_, (Nat.succ_pred_eq_of_pos (widthAux_pos q q)).symm⟩
  have hlt : q < 10 ^ (w + 1) := hw ▸ lt_pow_widthAux q q le_rfl
  have hd : q / 10 ^ w < 10 := Nat.div_lt_of_lt_mul (by rwa [pow_succ] at hlt)
  have hle : 10 ^ w ≤ q := by simpa [hw] using pow_widthAux_le q q hq
  have hpos : 0 < q / 10 ^ w := Nat.div_pos hle (pow_pos (by norm_num) w)
  have hread : readDigits (decimal q ++ s) 0 0 = (q, w + 1, s) := by
    rw [decimal, hw, readDigits_padDigits, readDigits_stop hs, Nat.mod_eq_of_lt hlt, zero_mul, zero_add, zero_add]
  have hhead : decimal q ++ s = Nat.digitChar (q / 10 ^ w) :: (padDigits w q ++ s) := by
    rw [decimal, hw, padDigits, Nat.mod_eq_of_lt hd, List.cons_append]
  obtain ⟨hdig, -, hne⟩ := digitChar_spec _ hd
  rw [hhead, parseInt, if_neg (hne hpos), if_pos hdig, ← hhead, hread]
  rfl

theorem parseFrac_none {s : List Char} (hs : ∀ c ∈ s.head?, c ≠ '.') : parseFrac s = some (0, 0, s) := by
  cases s with
  | nil => rfl
  | cons c s =>
    have hc := hs c rfl
    unfold parseFrac
    split
    · rename_i h; exact absurd (List.cons.inj h).1 hc
    · rfl

theorem parseFrac_padDigits {k : Nat} (hk : 0 < k) (r : Nat) {s : List Char} (hs : ∀ c ∈ s.head?, c.isDigit = false) :
    parseFrac ('.' :: (padDigits k r ++ s)) = some (r % 10 ^ k, k, s) := by
  obtain ⟨k, rfl⟩ : ∃ j, k = j + 1 := ⟨k - 1, by omega⟩
  simp only [parseFrac, readDigits_padDigits, readDigits_stop hs, zero_mul, zero_add]

theorem parseExp_none {s : List Char} (hs : ∀ c ∈ s.head?, c ≠ 'e' ∧ c ≠ 'E') : parseExp s = some (0, s) := by
  cases s with
  | nil => rfl
  | cons c s =>
    obtain ⟨he, hE⟩ := hs c rfl
    exact if_neg (not_or.2 ⟨he, hE⟩)

theorem den_mul_zpow_dvd (m : ℤ) (p : ℕ) {e : ℤ} (he : -(p : ℤ) ≤ e) : ((m : ℚ) * 2 ^ e).den ∣ 2 ^ p := by
  obtain ⟨t, rfl⟩ : ∃ t : ℕ, e = t - p := ⟨(e + p).toNat, by omega⟩
  have hdiv : (m : ℚ) * 2 ^ ((t : ℤ) - p) = Rat.divInt (m * 2 ^ t) ((2 ^ p : ℕ) : ℤ) := by
    rw [Rat.divInt_eq_div, zpow_sub₀ two_ne_zero, zpow_natCast, zpow_natCast]; push_cast; ring
  rw [hdiv]
  exact Int.natCast_dvd_natCast.1 (Rat.den_dvd _ _)

/-- A finite `float64` has a denominator that divides `2^1074`. -/
theorem IsFloat64.den_dvd {x : ℚ} (h : IsFloat64 x) : x.den ∣ 2 ^ 1074 := by
  obtain ⟨m, e, -, he, -, rfl⟩ := h
  exact den_mul_zpow_dvd m 1074 he

/-- A finite `float64` is below the rounding threshold of overflow. -/
theorem IsFloat64.abs_lt {x : ℚ} (h : IsFloat64 x) : |x| < 2 ^ 1024 - 2 ^ 970 := by
  obtain ⟨m, e, hm, -, he, rfl⟩ := h
  have hm' : |(m : ℚ)| ≤ 2 ^ 53 - 1 := by
    have h1 : ((m.natAbs + 1 : ℕ) : ℚ) ≤ ((2 ^ 53 : ℕ) : ℚ) := Nat.cast_le.2 hm
    rw [Nat.cast_add, Nat.cast_one, Nat.cast_natAbs, Int.cast_abs, Nat.cast_pow, Nat.cast_ofNat] at h1
    exact le_sub_iff_add_le.2 h1
  have hpos : (0 : ℚ) < 2 ^ e := zpow_pos two_pos e
  calc |(m : ℚ) * 2 ^ e| = |(m : ℚ)| * 2 ^ e := by rw [abs_mul, abs_of_pos hpos]
    _ ≤ (2 ^ 53 - 1) * 2 ^ (971 : ℤ) := mul_le_mul hm' (zpow_le_zpow_right₀ one_le_two he) hpos.le (by norm_num)
    _ < 2 ^ 1024 - 2 ^ 970 := by norm_num

/-- A denominator dividing `2^1074` divides `10` to the power `fracDigits` finds. -/
theorem den_dvd_fracDigits {x : ℚ} (h : x.den ∣ 2 ^ 1074) : x.den ∣ 10 ^ fracDigits x := by
  obtain ⟨j, -, hj⟩ := (Nat.dvd_prime_pow Nat.prime_two).1 h
  have hj10 : 10 ^ j % x.den = 0 := Nat.mod_eq_zero_of_dvd (hj ▸ pow_dvd_pow_of_dvd (by norm_num) j)
  have hmem : j ∈ List.range (x.den + 1) := List.mem_range.2 (by rw [hj]; exact Nat.lt_succ_of_lt (Nat.lt_two_pow j))
  unfold fracDigits
  cases hf : (List.range (x.den + 1)).find? fun k => 10 ^ k % x.den == 0 with
  | none => exact absurd (by simpa using hj10) (List.find?_eq_none.1 hf j hmem)
  | some k => exact Nat.dvd_of_mod_eq_zero (by simpa using List.find?_some hf)

theorem takeMinus_of_ne {c : Char} (hc : c ≠ '-') (t : List Char) : takeMinus (c :: t) = (false, c :: t) := by
  unfold takeMinus
  split
  · rename_i h; exact absurd (List.cons.inj h).1 hc
  · rfl

/-- `decimal q` starts with a digit. -/
theorem decimal_cons (q : Nat) : ∃ d < 10, ∃ t, decimal q = Nat.digitChar d :: t := by
  obtain ⟨w, hw⟩ : ∃ w, widthAux q q = w + 1 := ⟨_, (Nat.succ_pred_eq_of_pos (widthAux_pos q q)).symm⟩
  exact ⟨_, Nat.mod_lt _ (by norm_num), _, by rw [decimal, hw, padDigits]⟩

theorem digitChar_ne : ∀ d < 10, Nat.digitChar d ≠ '-' ∧ isSpace (Nat.digitChar d) = false ∧
    Nat.digitChar d ≠ ']' ∧ Nat.digitChar d ≠ '}' := by decide

/-- The value of the number `formatFloat` writes: its sign times the digits
before and after the point. -/
theorem formatFloat_value {x : ℚ} (hx : x.den ∣ 10 ^ fracDigits x) :
    let n := x.num * (10 ^ fracDigits x / x.den : ℕ)
    (if n < 0 then (-1 : ℚ) else 1) * (((n.natAbs / 10 ^ fracDigits x : ℕ) : ℚ) +
      ((n.natAbs % 10 ^ fracDigits x : ℕ) : ℚ) / 10 ^ fracDigits x) = x := by
  intro n
  have h10 : (10 : ℚ) ^ fracDigits x ≠ 0 := pow_ne_zero _ (by norm_num)
  have hsplit : ((n.natAbs / 10 ^ fracDigits x : ℕ) : ℚ) + ((n.natAbs % 10 ^ fracDigits x : ℕ) : ℚ) / 10 ^ fracDigits x =
      (n.natAbs : ℚ) / 10 ^ fracDigits x := by
    rw [eq_div_iff h10, add_mul, div_mul_cancel₀ _ h10]
    exact_mod_cast (by rw [mul_comm]; exact Nat.div_add_mod n.natAbs (10 ^ fracDigits x))
  have hsign : (if n < 0 then (-1 : ℚ) else 1) * n.natAbs = n := by
    rw [Nat.cast_natAbs, Int.cast_abs]
    split
    · rw [abs_of_neg (by exact_mod_cast ‹n < 0›)]; ring
    · rw [abs_of_nonneg (by exact_mod_cast not_lt.1 ‹¬n < 0›)]; ring
  have hd : (x.den : ℚ) ≠ 0 := Nat.cast_ne_zero.2 x.den_nz
  have hnum : (n : ℚ) = x.num * (10 ^ fracDigits x / x.den) := by
    simp only [n, Int.cast_mul, Int.cast_natCast, Nat.cast_div hx hd, Nat.cast_pow, Nat.cast_ofNat]
  rw [hsplit, ← mul_div_assoc, hsign, hnum, mul_div_assoc, div_div_cancel_left' h10, ← div_eq_mul_inv,
    Rat.num_div_den]

/-- A number's exact decimal expansion reads back as it, whatever may follow. -/
theorem parseNumber_formatFloat {x : ℚ} (hx : x.den ∣ 10 ^ fracDigits x) (hr : |x| < 2 ^ 1024 - 2 ^ 970)
    {s : List Char} (hs : Follows s) : parseNumber (formatFloat x ++ s) = some (x, s) := by
  have hs' := hs.number
  have hval := formatFloat_value hx
  have hform : formatFloat x ++ s = (if x.num * (10 ^ fracDigits x / x.den : ℕ) < 0 then ['-'] else []) ++
      (decimal ((x.num * (10 ^ fracDigits x / x.den : ℕ)).natAbs / 10 ^ fracDigits x) ++
      ((if fracDigits x = 0 then [] else
        '.' :: padDigits (fracDigits x) ((x.num * (10 ^ fracDigits x / x.den : ℕ)).natAbs % 10 ^ fracDigits x)) ++ s)) := by
    simp only [formatFloat, List.append_assoc]
  generalize fracDigits x = k at hx hval hform
  generalize x.num * (10 ^ k / x.den : ℕ) = n at hval hform
  generalize hfr : (if k = 0 then [] else '.' :: padDigits k (n.natAbs % 10 ^ k)) = fr at hform
  have hfrac : parseFrac (fr ++ s) = some (n.natAbs % 10 ^ k, k, s) := by
    subst hfr
    split
    · rename_i hk; subst hk
      rw [List.nil_append, pow_zero, Nat.mod_one]; exact parseFrac_none fun c hc => (hs' c hc).2.1
    · rw [List.cons_append, parseFrac_padDigits (Nat.pos_of_ne_zero ‹_›) _ fun c hc => (hs' c hc).1, Nat.mod_mod]
  have hint : parseInt (decimal (n.natAbs / 10 ^ k) ++ (fr ++ s)) = some (n.natAbs / 10 ^ k, fr ++ s) := by
    apply parseInt_decimal
    subst hfr
    split
    · exact fun c hc => (hs' c hc).1
    · intro c hc; cases hc; rfl
  have htake : takeMinus ((if n < 0 then ['-'] else []) ++ (decimal (n.natAbs / 10 ^ k) ++ (fr ++ s))) =
      (decide (n < 0), decimal (n.natAbs / 10 ^ k) ++ (fr ++ s)) := by
    split
    · rename_i h; simp only [h, decide_True]; rfl
    · rename_i h
      obtain ⟨d, hd, t, ht⟩ := decimal_cons (n.natAbs / 10 ^ k)
      rw [List.nil_append, ht, List.cons_append, takeMinus_of_ne (digitChar_ne d hd).1, decide_eq_false h]
  rw [hform]
  simp only [parseNumber, htake, hint, hfrac, parseExp_none fun c hc => (hs' c hc).2.2, Option.bind_eq_bind,
    Option.some_bind, decide_eq_true_eq, zpow_zero, mul_one, hval, not_le.2 hr, if_false]

/-! ## Values come back -/

/-- The text of `v` reads back as `v` from enough fuel, whatever may follow
it. -/
def ReadsBack (v : Json) : Prop :=
  ∀ n s, (marshal v).length ≤ n → Follows s → parseValue n (marshal v ++ s) = some (v, s)

theorem follows_cons {c : Char} (h : c = ',' ∨ c = ']' ∨ c = '}') (t : List Char) : Follows (c :: t) := by
  intro d hd; cases hd; exact h

theorem formatFloat_cons (x : ℚ) : ∃ c t, formatFloat x = c :: t ∧ (c = '-' ∨ ∃ d < 10, c = Nat.digitChar d) := by
  dsimp only [formatFloat]
  split
  · exact ⟨'-', _, rfl, .inl rfl⟩
  · obtain ⟨d, hd, t, ht⟩ := decimal_cons _
    exact ⟨_, _, by rw [List.nil_append, ht, List.cons_append], .inr ⟨d, hd, rfl⟩⟩

/-- A value's text starts with a character that is no whitespace and closes
nothing. -/
theorem marshal_cons (v : Json) : ∃ c t, marshal v = c :: t ∧ isSpace c = false ∧ c ≠ ']' ∧ c ≠ '}' := by
  cases v with
  | num x =>
    obtain ⟨c, t, h, hc⟩ := formatFloat_cons x
    refine ⟨c, t, h, ?_⟩
    rcases hc with rfl | ⟨d, hd, rfl⟩
    · decide
    · exact (digitChar_ne d hd).2
  | bool b => cases b <;> exact ⟨_, _, rfl, by decide⟩
  | arr xs => cases xs <;> exact ⟨_, _, rfl, by decide⟩
  | obj kvs => cases kvs <;> exact ⟨_, _, rfl, by decide⟩
  | null | str _ => exact ⟨_, _, rfl, by decide⟩

theorem skipSpace_marshal (v : Json) (s : List Char) : skipSpace (marshal v ++ s) = marshal v ++ s := by
  obtain ⟨c, t, h, hc, -⟩ := marshal_cons v
  rw [h, List.cons_append, skipSpace_cons hc]

theorem ReadsBack.comma {v : Json} (h : ReadsBack v) (n : Nat) (hn : (marshal v).length ≤ n) (t : List Char) :
    parseValue n (marshal v ++ ',' :: t) = some (v, ',' :: t) := h n _ hn (follows_cons (by decide) t)

theorem ReadsBack.bracket {v : Json} (h : ReadsBack v) (n : Nat) (hn : (marshal v).length ≤ n) (t : List Char) :
    parseValue n (marshal v ++ ']' :: t) = some (v, ']' :: t) := h n _ hn (follows_cons (by decide) t)

theorem ReadsBack.brace {v : Json} (h : ReadsBack v) (n : Nat) (hn : (marshal v).length ≤ n) (t : List Char) :
    parseValue n (marshal v ++ '}' :: t) = some (v, '}' :: t) := h n _ hn (follows_cons (by decide) t)

/-- The elements after `[`, each read back in turn, then `]`. -/
theorem parseElems_marshal {v : Json} {vs : List Json} (hv : ReadsBack v) (hvs : ∀ w ∈ vs, ReadsBack w)
    (acc : List Json) (n : Nat) (hn : (marshal v).length + (marshalElems vs).length < n) (s : List Char) :
    parseElems n acc (marshal v ++ (marshalElems vs ++ ']' :: s)) = some (.arr (acc ++ v :: vs), s) := by
  obtain ⟨m, rfl⟩ : ∃ m, n = m + 1 := ⟨n - 1, by omega⟩
  induction vs generalizing v acc m with
  | nil =>
    rw [parseElems, marshalElems, List.nil_append, hv.bracket m (by simp only [marshalElems] at hn; omega)]
    rfl
  | cons w ws ih =>
    simp only [marshalElems, List.length_cons, List.length_append] at hn
    simp only [marshalElems, List.cons_append, List.append_assoc]
    rw [parseElems, hv.comma m (by omega)]
    obtain ⟨k, rfl⟩ : ∃ k, m = k + 1 := ⟨m - 1, by omega⟩
    show parseElems (k + 1) (acc ++ [v]) (skipSpace (marshal w ++ (marshalElems ws ++ ']' :: s))) = _
    rw [skipSpace_marshal, ih (hvs w (List.mem_cons_self _ _)) (fun u hu => hvs u (List.mem_cons_of_mem _ hu))
      (acc ++ [v]) k (by omega), List.append_assoc, List.singleton_append]

/-- `m[k] = v` for a key above every key of the map adds the entry last. -/
theorem mapInsert_of_lt {k : String} {acc : List (String × Json)} (h : ∀ p ∈ acc, p.1 < k) (v : Json) :
    mapInsert k v acc = acc ++ [(k, v)] := by
  induction acc with
  | nil => rfl
  | cons p acc ih =>
    have hp := h p (List.mem_cons_self _ _)
    rw [mapInsert, if_neg (ne_of_gt hp), if_neg (String.lt_iff_toList_lt.not.1 (lt_asymm hp)),
      ih fun q hq => h q (List.mem_cons_of_mem _ hq)]
    rfl

/-- The entries after `{`, each read back in turn into the map, then `}`. -/
theorem parseMembers_marshal {k : String} {v : Json} {kvs : List (String × Json)} (hv : ReadsBack v)
    (hkvs : ∀ p ∈ kvs, ReadsBack p.2) (hsort : (((k, v) :: kvs).map (·.1)).Pairwise (· < ·))
    (acc : List (String × Json)) (hacc : ∀ p ∈ acc, p.1 < k) (n : Nat)
    (hn : (appendString k).length + (marshal v).length + (marshalMembers kvs).length < n) (s : List Char) :
    parseMembers n acc (appendString k ++ ':' :: (marshal v ++ (marshalMembers kvs ++ '}' :: s))) =
      some (.obj (acc ++ (k, v) :: kvs), s) := by
  obtain ⟨m, rfl⟩ : ∃ m, n = m + 1 := ⟨n - 1, by omega⟩
  induction kvs generalizing k v acc m with
  | nil =>
    have hk := length_le_flatMap_escapeChar k.toList
    simp only [appendString, marshalMembers, List.length_cons, List.length_append, List.length_singleton,
      List.length_nil] at hn
    rw [appendString_append, parseMembers]
    rw [unquote_escaped _ _ m (by omega)]
    simp only [marshalMembers, List.nil_append, skipSpace_cons (by decide : isSpace ':' = false), skipSpace_marshal,
      hv.brace m (by omega), skipSpace_cons (by decide : isSpace '}' = false), mk_toList, mapInsert_of_lt hacc]
  | cons p kvs ih =>
    obtain ⟨k', v'⟩ := p
    have hk := length_le_flatMap_escapeChar k.toList
    have hkk' : k < k' := List.rel_of_pairwise_cons hsort (List.mem_cons_self _ _)
    simp only [appendString, marshalMembers, List.length_cons, List.length_append, List.length_singleton,
      List.length_nil] at hn
    obtain ⟨j, rfl⟩ : ∃ j, m = j + 1 := ⟨m - 1, by omega⟩
    have hrest := ih (hkvs _ (List.mem_cons_self _ _)) (fun q hq => hkvs q (List.mem_cons_of_mem _ hq)) hsort.of_cons
      (acc ++ [(k, v)]) (by
        intro q hq
        rcases List.mem_append.1 hq with hq | hq
        · exact lt_trans (hacc q hq) hkk'
        · rw [List.mem_singleton.1 hq]; exact hkk') j
      (by simp only [appendString, List.length_cons, List.length_append, List.length_singleton, List.length_nil]; omega)
    rw [appendString_append, parseMembers]
    rw [unquote_escaped _ _ (j + 1) (by omega)]
    simp only [marshalMembers, List.cons_append, List.append_assoc, skipSpace_cons (by decide : isSpace ':' = false),
      skipSpace_marshal, hv.comma (j + 1) (by omega), skipSpace_cons (by decide : isSpace ',' = false), mk_toList,
      mapInsert_of_lt hacc]
    rw [appendString_append, skipSpace_cons (by decide : isSpace '"' = false), ← appendString_append, hrest,
      List.append_assoc, List.singleton_append]

theorem marshal_length_pos (v : Json) : 0 < (marshal v).length := by
  obtain ⟨c, t, h, -⟩ := marshal_cons v
  rw [h]; exact Nat.succ_pos _

/-- A number token goes to `parseNumber`. -/
theorem parseValue_formatFloat (n : Nat) (x : ℚ) (s : List Char) :
    parseValue (n + 1) (formatFloat x ++ s) = (parseNumber (formatFloat x ++ s)).map fun r => (.num r.1, r.2) := by
  obtain ⟨c, t, h, hc⟩ := formatFloat_cons x
  have hc' : c = '-' ∨ c.isDigit = true := by
    rcases hc with rfl | ⟨d, hd, rfl⟩
    · exact Or.inl rfl
    · exact Or.inr (digitChar_spec d hd).1
  rw [h, List.cons_append]
  exact if_pos hc'

/-- An array with an element goes to the element loop. -/
theorem parseValue_array (n : Nat) (v : Json) (s : List Char) :
    parseValue (n + 1) ('[' :: (marshal v ++ s)) = parseElems n [] (marshal v ++ s) := by
  obtain ⟨c, t, h, hsp, hb, -⟩ := marshal_cons v
  rw [h, List.cons_append]
  show (match skipSpace (c :: (t ++ s)) with
    | ']' :: s => some (Json.arr [], s)
    | s => parseElems n [] s) = _
  rw [skipSpace_cons hsp]
  split
  · rename_i h; exact absurd (List.cons.inj h).1 hb
  · rfl

theorem ReadsBack.of_succ {v : Json}
    (h : ∀ m s, (marshal v).length ≤ m + 1 → Follows s → parseValue (m + 1) (marshal v ++ s) = some (v, s)) :
    ReadsBack v := by
  intro n s hn hs
  obtain ⟨m, rfl⟩ : ∃ m, n = m + 1 := ⟨n - 1, by have := marshal_length_pos v; omega⟩
  exact h m s hn hs

/-- Every value a Go `any` of the body can hold reads back from its text. -/
theorem Marshalable.readsBack {v : Json} (h : Marshalable v) : ReadsBack v := by
  induction h with
  | null => exact .of_succ fun _ _ _ _ => rfl
  | bool b => exact .of_succ fun _ _ _ _ => by cases b <;> rfl
  | num hx =>
    refine .of_succ fun m s _ hs => ?_
    rw [marshal, parseValue_formatFloat, parseNumber_formatFloat (den_dvd_fracDigits hx.den_dvd) hx.abs_lt hs]
    rfl
  | str t =>
    refine .of_succ fun m s hn _ => ?_
    have := length_le_flatMap_escapeChar t.toList
    simp only [marshal, appendString, List.length_cons, List.length_append, List.length_singleton] at hn
    rw [marshal, appendString_append]
    show (unquote m _).map _ = _
    rw [unquote_escaped _ _ m (by omega)]
    rfl
  | @arr xs _ ih =>
    refine .of_succ fun m s hn _ => ?_
    cases xs with
    | nil => rfl
    | cons v vs =>
      simp only [marshal, List.length_cons, List.length_append, List.length_singleton] at hn
      simp only [marshal, List.cons_append, List.append_assoc, List.singleton_append]
      rw [parseValue_array, parseElems_marshal (ih v (List.mem_cons_self _ _))
        (fun w hw => ih w (List.mem_cons_of_mem _ hw)) [] m (by omega)]
      rfl
  | @obj kvs hsort _ ih =>
    refine .of_succ fun m s hn _ => ?_
    cases kvs with
    | nil => rfl
    | cons p kvs =>
      obtain ⟨k, v⟩ := p
      simp only [marshal, List.length_cons, List.length_append, List.length_singleton, List.length_nil] at hn
      simp only [marshal, List.cons_append, List.append_assoc, List.singleton_append]
      rw [appendString_append]
      show parseMembers m [] ('"' :: _) = _
      rw [← appendString_append, @parseMembers_marshal k v kvs (ih (k, v) (List.mem_cons_self _ _))
        (fun p hp => ih p (List.mem_cons_of_mem _ hp)) hsort [] nofun m (by omega)]
      rfl

/-- `json.Unmarshal` gives back every value a Go `any` of the body can hold
from the text `json.Marshal` writes for it. -/
theorem Marshalable.unmarshal_marshal {v : Json} (h : Marshalable v) : unmarshal (marshal v) = some v := by
  have hv := h.readsBack ((marshal v).length + 1) [] (by omega) nofun
  have hs := skipSpace_marshal v []
  rw [List.append_nil] at hv hs
  rw [unmarshal, hs, hv]
  rfl

example : (unmarshal " \x7b\"b\": false, \"a\": [true, \"\\ud83d\\ude00\\ud83d\"], \"b\": null\x7d ".toList).map marshal =
    some "\x7b\"a\":[true,\"😀\uFFFD\"],\"b\":null\x7d".toList := by decide

example : marshal (.obj [("a", .arr [.num ⟨-5, 2, by decide, by exact rfl⟩, .num (-30), .str "<\n"]), ("b", .null)]) =
    "\x7b\"a\":[-2.5,-30,\"\\u003c\\n\"],\"b\":null\x7d".toList := by decide

end Pvz.Json
