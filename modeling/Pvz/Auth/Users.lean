import Pvz.Auth.Password
import Mathlib.Data.List.Nodup

/-!
# The `users` table

`PostgresUserRepository` (`src/pkg/repository/user.go:36-266`) over the table
of `src/unnamed/part_002:3-10`: `id SERIAL`, `username VARCHAR(255) UNIQUE`,
`password_hash VARCHAR(255)`, `role VARCHAR(50)` and two timestamps. Each call
is one transaction, and a call that fails rolls back: it returns an error, and
the rows stay as they were. Only the sequence does not roll back: an id that a
failed `INSERT` drew stays used (`UserStore.rollback`).

Go strings are bytes, and Postgres reads a text parameter as UTF-8: it refuses
bytes that are not (`utf8Chars`), and a `VARCHAR(n)` column refuses a value of
more than `n` characters unless only spaces follow them, which it cuts
(`varchar`). Names compare as their bytes.

* `UserStore.Inv.call` and `UserStore.Hashes.call`: every call that succeeds
  keeps the ids unique, positive and below the sequence, the names unique,
  every name and role what its column stores, and every hash
  `hashPasswordSHA256` of the password last given to its row
  (`UserCall.passwords`) under some salt. `UserStore.Reachable.users_valid`
  carries this to every table the calls reach from the empty one.
* `UserStore.Inv.checkPassword_eq_true`: on such a table `CheckPassword`
  accepts a name and a password exactly when a row has the name and the
  password hashes under the row's salt like the row's own.
* `UserStore.checkPassword_after_updatePassword` and
  `UserStore.checkPassword_after_update`: a new password replaces the old one,
  and a rename moves the credentials to the name stored.
* `UserStore.checkPassword_after_create_cut`: a name the column cuts passes
  `Create`'s check. Unless a row has the cut name, which makes the `INSERT`
  the unique violation, it is created, yet no password ever passes under it.
-/

namespace Pvz.Auth

/-! ## Postgres text -/

/-- Whether a byte lies in `[lo, hi]`. -/
def inRange (lo hi : Nat) (c : UInt8) : Bool := lo ≤ c.toNat && c.toNat ≤ hi

/-- The first two bytes of a three-byte character, as `pg_utf8_islegal`
allows them. -/
def lead3 (b c : UInt8) : Bool :=
  (b = 0xE0 && inRange 0xA0 0xBF c) || (inRange 0xE1 0xEC b && inRange 0x80 0xBF c) ||
    (b = 0xED && inRange 0x80 0x9F c) || (inRange 0xEE 0xEF b && inRange 0x80 0xBF c)

/-- The first two bytes of a four-byte character. -/
def lead4 (b c : UInt8) : Bool :=
  (b = 0xF0 && inRange 0x90 0xBF c) || (inRange 0xF1 0xF3 b && inRange 0x80 0xBF c) ||
    (b = 0xF4 && inRange 0x80 0x8F c)

/-- The characters of text as Postgres reads it in a UTF-8 database, each as
its bytes; `none` for `invalid byte sequence for encoding "UTF8"`, which a
`NUL` byte also gets. -/
def utf8Chars : List UInt8 → Option (List (List UInt8))
  | [] => some []
  | b :: s =>
    if inRange 0x01 0x7F b then (utf8Chars s).map ([b] :: ·) else
    match s with
    | c1 :: s1 =>
      if inRange 0xC2 0xDF b && inRange 0x80 0xBF c1 then (utf8Chars s1).map ([b, c1] :: ·) else
      match s1 with
      | c2 :: s2 =>
        if lead3 b c1 && inRange 0x80 0xBF c2 then (utf8Chars s2).map ([b, c1, c2] :: ·) else
        match s2 with
        | c3 :: s3 =>
          if lead4 b c1 && inRange 0x80 0xBF c2 && inRange 0x80 0xBF c3 then
            (utf8Chars s3).map ([b, c1, c2, c3] :: ·)
          else none
        | [] => none
      | [] => none
    | [] => none

/-- What a `VARCHAR(n)` column stores for the text `v`: `v` itself when it has
at most `n` characters, its first `n` when only spaces follow them; `none` for
invalid text and for `value too long for type character varying(n)`. -/
def varchar (n : Nat) (v : List UInt8) : Option (List UInt8) :=
  match utf8Chars v with
  | some cs =>
    if cs.length ≤ n then some v
    else if (cs.drop n).all (· = [32]) then some (cs.take n).flatten
    else none
  | none => none

/-! ## The table and its calls -/

/-- A row of `users`. -/
structure UserRow where
  id : Int
  username : List UInt8
  passwordHash : List UInt8
  role : List UInt8
  createdAt : Int
  updatedAt : Int
  deriving DecidableEq

/-- The table with its `users_id_seq`. -/
structure UserStore where
  users : List UserRow
  nextID : Int

/-- The table the migration creates. -/
def UserStore.empty : UserStore := ⟨[], 1⟩

/-- The repository's errors: its two sentinels, and a failed statement with
the text `fmt.Errorf` puts before the driver's error. -/
inductive UserError
  | userNotFound
  | userAlreadyExists
  | query (msg : String)
  deriving DecidableEq

/-- `Error()`: the sentinels' texts, and for a failed statement the text
`fmt.Errorf` puts before the driver's error (which the model leaves out). -/
def UserError.text : UserError → String
  | .userNotFound => "пользователь не найден"
  | .userAlreadyExists => "пользователь с таким именем уже существует"
  | .query msg => msg

section

variable (sha256 : List UInt8 → Digest)

/-- `Create`'s `SELECT EXISTS(... WHERE username = $1 FOR UPDATE)`: a name
that is not text fails the query, and a name a row has is
`ErrUserAlreadyExists`. -/
def UserStore.createCheck (s : UserStore) (username : List UInt8) : Except UserError Unit :=
  if (utf8Chars username).isNone then .error (.query "ошибка проверки существования пользователя")
  else if s.users.any (·.username = username) then .error .userAlreadyExists
  else .ok ()

/-- `Create`'s `INSERT` and `Commit`: the row under the next id, with the
password hashed under a fresh salt, unless a column refuses its value or the
name stored is taken. -/
def UserStore.createInsert (s : UserStore) (username role plainPassword : List UInt8) (salt : Salt) (now : Int) :
    Except UserError UserStore :=
  match varchar 255 username, varchar 255 (hashPasswordSHA256 sha256 salt plainPassword), varchar 50 role with
  | some u, some h, some r =>
    if s.users.any (·.username = u) then .error (.query "ошибка создания пользователя")
    else .ok ⟨s.users ++ [⟨s.nextID, u, h, r, now, now⟩], s.nextID + 1⟩
  | _, _, _ => .error (.query "ошибка создания пользователя")

/-- `Create`, one transaction: the check, then the `INSERT`. -/
def UserStore.create (s : UserStore) (username role plainPassword : List UInt8) (salt : Salt) (now : Int) :
    Except UserError UserStore :=
  match s.createCheck username with
  | .error e => .error e
  | .ok () => s.createInsert sha256 username role plainPassword salt now

end

/-- The table a failed `INSERT` of `Create` leaves. Postgres draws the row's id
from `users_id_seq` as it builds the row, before it checks a value's length or
the name's uniqueness, and the rollback does not give the id back; text that
is not UTF-8 is refused earlier, when the parameters are bound. -/
def UserStore.insertRollback (s : UserStore) (username role : List UInt8) : UserStore :=
  if (utf8Chars username).isSome && (utf8Chars role).isSome then { s with nextID := s.nextID + 1 } else s

/-- The table a failed `Create` leaves: its `INSERT` ran if the check passed. -/
def UserStore.createRollback (s : UserStore) (username role : List UInt8) : UserStore :=
  match s.createCheck username with
  | .ok () => s.insertRollback username role
  | .error _ => s

/-- An `UPDATE users SET ... WHERE id = $1`: `f` on the row with the id. -/
def UserStore.setRow (s : UserStore) (id : Int) (f : UserRow → UserRow) : UserStore :=
  { s with users := s.users.map fun row => if row.id = id then f row else row }

/-- `Update`: a missing id is `ErrUserNotFound`; the new name and role are
stored unless a column refuses them or another row has the stored name. -/
def UserStore.update (s : UserStore) (id : Int) (username role : List UInt8) (now : Int) :
    Except UserError UserStore :=
  if s.users.all (·.id ≠ id) then .error .userNotFound
  else
    match varchar 255 username, varchar 50 role with
    | some u, some r =>
      if s.users.any fun row => row.id ≠ id && row.username = u then .error (.query "ошибка обновления пользователя")
      else .ok (s.setRow id fun row => { row with username := u, role := r, updatedAt := now })
    | _, _ => .error (.query "ошибка обновления пользователя")

section

variable (sha256 : List UInt8 → Digest)

/-- `UpdatePassword`: a missing id is `ErrUserNotFound`; the row gets the new
password's hash under a fresh salt. -/
def UserStore.updatePassword (s : UserStore) (userID : Int) (newPassword : List UInt8) (salt : Salt) (now : Int) :
    Except UserError UserStore :=
  if s.users.all (·.id ≠ userID) then .error .userNotFound
  else
    match varchar 255 (hashPasswordSHA256 sha256 salt newPassword) with
    | some h => .ok (s.setRow userID fun row => { row with passwordHash := h, updatedAt := now })
    | none => .error (.query "ошибка обновления пароля")

end

/-- `Delete`: a missing id is `ErrUserNotFound`. -/
def UserStore.delete (s : UserStore) (id : Int) : Except UserError UserStore :=
  if s.users.all (·.id ≠ id) then .error .userNotFound else .ok { s with users := s.users.filter (·.id ≠ id) }

/-- `GetByID`. -/
def UserStore.getByID (s : UserStore) (id : Int) : Except UserError UserRow :=
  match s.users.find? (·.id = id) with
  | some row => .ok row
  | none => .error .userNotFound

/-- `GetByUsername`; a name that is not text fails the query. -/
def UserStore.getByUsername (s : UserStore) (username : List UInt8) : Except UserError UserRow :=
  if (utf8Chars username).isNone then .error (.query "ошибка получения пользователя")
  else match s.users.find? (·.username = username) with
    | some row => .ok row
    | none => .error .userNotFound

/-- `List(ctx, "")`: every row. `ORDER BY username` sorts them by the
database's collation, which the model leaves open. -/
def UserStore.listAll (s : UserStore) : List UserRow := s.users

/-- `CheckPassword`: the stored hash of the row with the name, checked; a
failed query, a name that is not text or no row, is `false`. -/
def UserStore.checkPassword (sha256 : List UInt8 → Digest) (s : UserStore) (username password : List UInt8) : Bool :=
  if (utf8Chars username).isNone then false
  else match s.users.find? (·.username = username) with
    | some row => Auth.checkPassword sha256 row.passwordHash password
    | none => false

/-- The calls that write the table, with what the environment chooses: the
salt `generateSalt` reads and the clock. -/
inductive UserCall
  | create (username role password : List UInt8) (salt : Salt) (now : Int)
  | update (id : Int) (username role : List UInt8) (now : Int)
  | updatePassword (id : Int) (password : List UInt8) (salt : Salt) (now : Int)
  | delete (id : Int)

/-- One call. -/
def UserStore.call (sha256 : List UInt8 → Digest) (s : UserStore) : UserCall → Except UserError UserStore
  | .create username role password salt now => s.create sha256 username role password salt now
  | .update id username role now => s.update id username role now
  | .updatePassword id password salt now => s.updatePassword sha256 id password salt now
  | .delete id => s.delete id

/-- The password each id has after a call that succeeded on `s`: `Create`
gives the next id its password, `UpdatePassword` its row the new one. -/
def UserCall.passwords (s : UserStore) (pw : Int → List UInt8) : UserCall → Int → List UInt8
  | .create _ _ password _ _ => Function.update pw s.nextID password
  | .updatePassword id password _ _ => Function.update pw id password
  | .update .. | .delete _ => pw

/-- The table a failed call leaves: the rows as they were, and the sequence
past the id a `Create`'s `INSERT` drew. -/
def UserStore.rollback (s : UserStore) : UserCall → UserStore
  | .create username role _ _ _ => s.createRollback username role
  | .update .. | .updatePassword .. | .delete _ => s

/-- Calls in turn; a failed one rolls back. -/
def UserStore.run (sha256 : List UInt8 → Digest) : UserStore × (Int → List UInt8) → List UserCall →
    UserStore × (Int → List UInt8)
  | p, [] => p
  | (s, pw), c :: cs =>
    match s.call sha256 c with
    | .ok s' => run sha256 (s', c.passwords s pw) cs
    | .error _ => run sha256 (s.rollback c, pw) cs

/-! ## Text the columns store -/

theorem utf8Chars_one {b : UInt8} (h : inRange 1 127 b = true) (s : List UInt8) :
    utf8Chars (b :: s) = (utf8Chars s).map ([b] :: ·) := by
  rw [utf8Chars.eq_def]; exact if_pos h

theorem utf8Chars_two {b c1 : UInt8} (h1 : ¬inRange 1 127 b = true) (h : (inRange 194 223 b && inRange 128 191 c1) = true)
    (s : List UInt8) : utf8Chars (b :: c1 :: s) = (utf8Chars s).map ([b, c1] :: ·) := by
  rw [utf8Chars.eq_def]; exact (if_neg h1).trans (if_pos h)

theorem utf8Chars_three {b c1 c2 : UInt8} (h1 : ¬inRange 1 127 b = true)
    (h2 : ¬(inRange 194 223 b && inRange 128 191 c1) = true) (h : (lead3 b c1 && inRange 128 191 c2) = true)
    (s : List UInt8) : utf8Chars (b :: c1 :: c2 :: s) = (utf8Chars s).map ([b, c1, c2] :: ·) := by
  rw [utf8Chars.eq_def]; exact (if_neg h1).trans ((if_neg h2).trans (if_pos h))

theorem utf8Chars_four {b c1 c2 c3 : UInt8} (h1 : ¬inRange 1 127 b = true)
    (h2 : ¬(inRange 194 223 b && inRange 128 191 c1) = true) (h3 : ¬(lead3 b c1 && inRange 128 191 c2) = true)
    (h : (lead4 b c1 && inRange 128 191 c2 && inRange 128 191 c3) = true) (s : List UInt8) :
    utf8Chars (b :: c1 :: c2 :: c3 :: s) = (utf8Chars s).map ([b, c1, c2, c3] :: ·) := by
  rw [utf8Chars.eq_def]; exact (if_neg h1).trans ((if_neg h2).trans ((if_neg h3).trans (if_pos h)))

/-- A character that reads as itself in front of any text. -/
def Utf8Char (c : List UInt8) : Prop := ∀ rest, utf8Chars (c ++ rest) = (utf8Chars rest).map (c :: ·)

theorem Utf8Char.of_cons {c : List UInt8} {cs : List (List UInt8)} {s : List UInt8}
    (hc : Utf8Char c) (ih : ∀ {cs}, utf8Chars s = some cs → s = cs.flatten ∧ ∀ c ∈ cs, Utf8Char c)
    (h : (utf8Chars s).map (c :: ·) = some cs) : c ++ s = cs.flatten ∧ ∀ c' ∈ cs, Utf8Char c' := by
  obtain ⟨cs', hs, rfl⟩ := Option.map_eq_some'.1 h
  obtain ⟨rfl, hcs⟩ := ih hs
  exact ⟨rfl, fun c' hc' => (List.mem_cons.1 hc').elim (· ▸ hc) (hcs c')⟩

/-- Text is the characters `utf8Chars` reads in it, and each of them reads
again as itself. -/
theorem utf8Chars_chars {v : List UInt8} :
    ∀ {cs}, utf8Chars v = some cs → v = cs.flatten ∧ ∀ c ∈ cs, Utf8Char c := by
  induction v using utf8Chars.induct with
  | case1 => intro cs h; cases h; exact ⟨rfl, nofun⟩
  | case2 b s h ih =>
    intro cs hv; rw [utf8Chars_one h] at hv
    exact Utf8Char.of_cons (fun rest => utf8Chars_one h rest) ih hv
  | case3 b h1 c1 s h ih =>
    intro cs hv; rw [utf8Chars_two h1 h] at hv
    exact Utf8Char.of_cons (fun rest => utf8Chars_two h1 h rest) ih hv
  | case4 b h1 c1 h2 c2 s h ih =>
    intro cs hv; rw [utf8Chars_three h1 h2 h] at hv
    exact Utf8Char.of_cons (fun rest => utf8Chars_three h1 h2 h rest) ih hv
  | case5 b h1 c1 h2 c2 h3 c3 s h ih =>
    intro cs hv; rw [utf8Chars_four h1 h2 h3 h] at hv
    exact Utf8Char.of_cons (fun rest => utf8Chars_four h1 h2 h3 h rest) ih hv
  | case6 b h1 c1 h2 c2 h3 c3 s h =>
    have hn : utf8Chars (b :: c1 :: c2 :: c3 :: s) = none := by
      rw [utf8Chars.eq_def]; exact (if_neg h1).trans ((if_neg h2).trans ((if_neg h3).trans (if_neg h)))
    intro cs hv; rw [hn] at hv; cases hv
  | case7 b h1 c1 h2 c2 h3 =>
    have hn : utf8Chars [b, c1, c2] = none := by
      rw [utf8Chars.eq_def]; exact (if_neg h1).trans ((if_neg h2).trans (if_neg h3))
    intro cs hv; rw [hn] at hv; cases hv
  | case8 b h1 c1 h2 =>
    have hn : utf8Chars [b, c1] = none := by rw [utf8Chars.eq_def]; exact (if_neg h1).trans (if_neg h2)
    intro cs hv; rw [hn] at hv; cases hv
  | case9 b h1 =>
    have hn : utf8Chars [b] = none := by rw [utf8Chars.eq_def]; exact if_neg h1
    intro cs hv; rw [hn] at hv; cases hv

theorem utf8Chars_flatten {cs : List (List UInt8)} (h : ∀ c ∈ cs, Utf8Char c) : utf8Chars cs.flatten = some cs := by
  induction cs with
  | nil => rfl
  | cons c cs ih =>
    rw [List.flatten_cons, h c (List.mem_cons_self _ _), ih fun c' hc' => h c' (List.mem_cons_of_mem _ hc')]
    rfl

/-- What a column stores, it stores as it is. -/
theorem varchar_idem {n : Nat} {v w : List UInt8} (h : varchar n v = some w) : varchar n w = some w := by
  unfold varchar at h
  split at h
  · rename_i cs hv
    obtain ⟨-, hcs⟩ := utf8Chars_chars hv
    split at h
    · cases h; rw [varchar, hv]; exact if_pos ‹_›
    · split at h
      · cases h
        have htake : utf8Chars (cs.take n).flatten = some (cs.take n) :=
          utf8Chars_flatten fun c hc => hcs c (List.mem_of_mem_take hc)
        rw [varchar, htake]; exact if_pos (List.length_take_le _ _)
      · cases h
  · cases h

theorem utf8Chars_ascii {v : List UInt8} (h : ∀ b ∈ v, inRange 1 127 b = true) : utf8Chars v = some (v.map ([·])) := by
  induction v with
  | nil => rfl
  | cons b v ih =>
    rw [utf8Chars_one (h b (List.mem_cons_self _ _)), ih fun b' hb' => h b' (List.mem_cons_of_mem _ hb')]
    rfl

theorem varchar_ascii {n : Nat} {v : List UInt8} (h : ∀ b ∈ v, inRange 1 127 b = true) (hn : v.length ≤ n) :
    varchar n v = some v := by
  rw [varchar, utf8Chars_ascii h]
  exact if_pos (by rw [List.length_map]; exact hn)

/-- ASCII text of more than `n` characters with a non-space past the `n`-th is
refused. -/
theorem varchar_ascii_long {n : Nat} {v : List UInt8} (h : ∀ b ∈ v, inRange 1 127 b = true) (hn : n < v.length)
    {b : UInt8} (hb : b ∈ v.drop n) (hsp : b ≠ 32) : varchar n v = none := by
  rw [varchar, utf8Chars_ascii h]
  dsimp only
  rw [List.length_map, if_neg (by omega), ← List.map_drop, if_neg]
  simp only [List.all_eq_true, not_forall]
  exact ⟨[b], List.mem_map_of_mem _ hb, by simpa using hsp⟩

theorem ascii_symbols (val : Nat) : ∀ b ∈ Base64.symbols val, inRange 1 127 b = true := by
  have h64 : ∀ n, n % 64 < 64 := fun n => Nat.mod_lt _ (by omega)
  have hstd : ∀ i < 64, inRange 1 127 (Base64.encodeStd i) = true := by decide
  simp only [Base64.symbols, List.mem_cons, List.not_mem_nil, or_false]
  rintro b (rfl | rfl | rfl | rfl) <;> exact hstd _ (h64 _)

theorem ascii_encodeToString (bs : List UInt8) : ∀ b ∈ Base64.encodeToString bs, inRange 1 127 b = true := by
  induction bs using Base64.encodeToString.induct with
  | case1 a b c rest ih =>
    rw [Base64.encodeToString]
    exact fun x hx => (List.mem_append.1 hx).elim (ascii_symbols _ x) (ih x)
  | case2 a b =>
    rw [Base64.encodeToString]
    exact fun x hx => (List.mem_append.1 hx).elim (fun hx => ascii_symbols _ x (List.mem_of_mem_take hx))
      (by rintro (_ | ⟨_, ⟨⟩⟩); rfl)
  | case3 a =>
    rw [Base64.encodeToString]
    exact fun x hx => (List.mem_append.1 hx).elim (fun hx => ascii_symbols _ x (List.mem_of_mem_take hx))
      (by rintro (_ | ⟨_, _ | ⟨_, ⟨⟩⟩⟩) <;> rfl)
  | case4 => nofun

/-- `password_hash` stores every hash as it is. -/
theorem varchar_hashPasswordSHA256 (sha256 : List UInt8 → Digest) (salt : Salt) (password : List UInt8) :
    varchar 255 (hashPasswordSHA256 sha256 salt password) = some (hashPasswordSHA256 sha256 salt password) := by
  refine varchar_ascii ?_ (by rw [length_hashPasswordSHA256]; omega)
  intro b hb
  rcases List.mem_append.1 hb with hb | hb
  · exact ascii_encodeToString _ b hb
  · rcases List.mem_cons.1 hb with rfl | hb
    · rfl
    · exact ascii_encodeToString _ b hb

/-! ## What a call that succeeds does -/

section

variable {sha256 : List UInt8 → Digest} {s s' : UserStore}

theorem exists_id_of_not_all {l : List UserRow} {id : Int} (h : ¬(l.all (·.id ≠ id)) = true) :
    ∃ r ∈ l, r.id = id := by
  simpa using h

theorem UserStore.createCheck_free {username : List UInt8} (htext : (utf8Chars username).isSome = true)
    (hfree : ∀ row ∈ s.users, row.username ≠ username) : s.createCheck username = .ok () := by
  rw [UserStore.createCheck, if_neg (by simpa using Option.isSome_iff_ne_none.1 htext), if_neg (by simpa using hfree)]

theorem UserStore.createInsert_ok {username role password : List UInt8} {salt : Salt} {now : Int}
    (h : s.createInsert sha256 username role password salt now = .ok s') :
    ∃ u r, varchar 255 username = some u ∧ varchar 50 role = some r ∧ (∀ row ∈ s.users, row.username ≠ u) ∧
      s' = ⟨s.users ++ [⟨s.nextID, u, hashPasswordSHA256 sha256 salt password, r, now, now⟩], s.nextID + 1⟩ := by
  unfold UserStore.createInsert at h
  rw [varchar_hashPasswordSHA256] at h
  split at h
  · rename_i u hh r hu hhash hr
    cases hhash
    split at h
    · cases h
    · rename_i hn
      cases h
      exact ⟨u, r, hu, hr, by simpa using hn, rfl⟩
  · cases h

theorem UserStore.update_ok {id : Int} {username role : List UInt8} {now : Int}
    (h : s.update id username role now = .ok s') :
    (∃ row ∈ s.users, row.id = id) ∧ ∃ u r, varchar 255 username = some u ∧ varchar 50 role = some r ∧
      (∀ row ∈ s.users, row.id ≠ id → row.username ≠ u) ∧
      s' = s.setRow id fun row => { row with username := u, role := r, updatedAt := now } := by
  unfold UserStore.update at h
  split at h
  · cases h
  rename_i hid
  split at h
  · rename_i u r hu hr
    split at h
    · cases h
    · rename_i hn
      cases h
      exact ⟨exists_id_of_not_all hid, u, r, hu, hr, by simpa using hn, rfl⟩
  · cases h

theorem UserStore.updatePassword_ok {userID : Int} {password : List UInt8} {salt : Salt} {now : Int}
    (h : s.updatePassword sha256 userID password salt now = .ok s') :
    (∃ row ∈ s.users, row.id = userID) ∧
      s' = s.setRow userID fun row =>
        { row with passwordHash := hashPasswordSHA256 sha256 salt password, updatedAt := now } := by
  unfold UserStore.updatePassword at h
  rw [varchar_hashPasswordSHA256] at h
  split at h
  · cases h
  · cases h
    exact ⟨exists_id_of_not_all ‹_›, rfl⟩

theorem UserStore.delete_ok {id : Int} (h : s.delete id = .ok s') :
    (∃ row ∈ s.users, row.id = id) ∧ s' = { s with users := s.users.filter (·.id ≠ id) } := by
  unfold UserStore.delete at h
  split at h
  · cases h
  · cases h
    exact ⟨exists_id_of_not_all ‹_›, rfl⟩

end

/-! ## The table's invariant -/

/-- What every table the calls reach keeps: `users_id_seq` past every id, the
ids unique and positive, the names unique, and each name and role what its
column stores. -/
structure UserStore.Inv (s : UserStore) : Prop where
  seq : 0 < s.nextID
  ids : (s.users.map (·.id)).Nodup
  below : ∀ r ∈ s.users, 0 < r.id ∧ r.id < s.nextID
  names : (s.users.map (·.username)).Nodup
  texts : ∀ r ∈ s.users, varchar 255 r.username = some r.username ∧ varchar 50 r.role = some r.role

/-- Every stored hash is `hashPasswordSHA256` of the password `pw` gives its
row, under some salt. -/
def UserStore.Hashes (sha256 : List UInt8 → Digest) (s : UserStore) (pw : Int → List UInt8) : Prop :=
  ∀ r ∈ s.users, ∃ salt, r.passwordHash = hashPasswordSHA256 sha256 salt (pw r.id)

section

variable {sha256 : List UInt8 → Digest} {s s' : UserStore} {pw : Int → List UInt8}

theorem UserStore.inv_empty : UserStore.empty.Inv :=
  ⟨by decide, List.nodup_nil, nofun, List.nodup_nil, nofun⟩

theorem UserStore.mem_setRow {id : Int} {f : UserRow → UserRow} {r : UserRow} :
    r ∈ (s.setRow id f).users ↔ ∃ r0 ∈ s.users, (if r0.id = id then f r0 else r0) = r :=
  List.mem_map

/-- A column `f` leaves alone reads the same after the `UPDATE`. -/
theorem UserStore.map_setRow {β : Type} (g : UserRow → β) {id : Int} {f : UserRow → UserRow}
    (hg : ∀ r, g (f r) = g r) : (s.setRow id f).users.map g = s.users.map g := by
  rw [UserStore.setRow, List.map_map]
  exact List.map_congr_left fun r _ => by dsimp only [Function.comp]; split <;> simp only [hg]

theorem nodup_map_concat {β : Type} {f : UserRow → β} {l : List UserRow} {x : UserRow} (hl : (l.map f).Nodup)
    (hx : ∀ r ∈ l, f r ≠ f x) : ((l ++ [x]).map f).Nodup := by
  rw [List.map_append, List.map_singleton]
  exact hl.append (List.nodup_singleton _) (List.disjoint_singleton.2 fun h =>
    let ⟨r, hr, e⟩ := List.mem_map.1 h; hx r hr e)

theorem UserStore.Inv.createInsert {username role password : List UInt8} {salt : Salt} {now : Int} (hi : s.Inv)
    (h : s.createInsert sha256 username role password salt now = .ok s') : s'.Inv := by
  obtain ⟨u, r, hu, hr, hfree, rfl⟩ := UserStore.createInsert_ok h
  have hseq := hi.seq
  refine ⟨by dsimp only; omega, nodup_map_concat hi.ids fun row hrow => (hi.below row hrow).2.ne,
    fun row hrow => ?_, nodup_map_concat hi.names hfree, fun row hrow => ?_⟩
  · rcases List.mem_append.1 hrow with hrow | hrow
    · have := hi.below row hrow; dsimp only; omega
    · rw [List.mem_singleton.1 hrow]; dsimp only; omega
  · rcases List.mem_append.1 hrow with hrow | hrow
    · exact hi.texts row hrow
    · rw [List.mem_singleton.1 hrow]; exact ⟨varchar_idem hu, varchar_idem hr⟩

theorem UserStore.createInsert_of_create {username role password : List UInt8} {salt : Salt} {now : Int}
    (h : s.create sha256 username role password salt now = .ok s') :
    s.createInsert sha256 username role password salt now = .ok s' := by
  unfold UserStore.create at h
  split at h
  · cases h
  · exact h

/-- An `UPDATE` that keeps the id keeps the invariant when the names stay
unique and the row's new texts are stored ones. -/
theorem UserStore.Inv.setRow (hi : s.Inv) {id : Int} {f : UserRow → UserRow} (hid : ∀ r, (f r).id = r.id)
    (hnames : ((s.setRow id f).users.map (·.username)).Nodup)
    (htexts : ∀ r ∈ s.users, r.id = id →
      varchar 255 (f r).username = some (f r).username ∧ varchar 50 (f r).role = some (f r).role) :
    (s.setRow id f).Inv := by
  refine ⟨hi.seq, by rw [UserStore.map_setRow _ hid]; exact hi.ids, fun r hr => ?_, hnames, fun r hr => ?_⟩
  · obtain ⟨r0, hr0, rfl⟩ := UserStore.mem_setRow.1 hr
    split
    · rw [hid]; exact hi.below r0 hr0
    · exact hi.below r0 hr0
  · obtain ⟨r0, hr0, rfl⟩ := UserStore.mem_setRow.1 hr
    split
    · exact htexts r0 hr0 ‹_›
    · exact hi.texts r0 hr0

/-- Renaming the row with the id to a name no other row has keeps the names
unique. -/
theorem UserStore.Inv.names_setRow (hi : s.Inv) {id : Int} {u : List UInt8} {f : UserRow → UserRow}
    (hf : ∀ r, (f r).username = u) (hfree : ∀ row ∈ s.users, row.id ≠ id → row.username ≠ u) :
    ((s.setRow id f).users.map (·.username)).Nodup := by
  rw [UserStore.setRow, List.map_map]
  refine List.Nodup.map_on (fun x hx y hy hxy => ?_) (List.Nodup.of_map _ hi.ids)
  have hname := List.inj_on_of_nodup_map hi.names hx hy
  have hid := List.inj_on_of_nodup_map hi.ids hx hy
  dsimp only [Function.comp] at hxy
  split_ifs at hxy with h1 h2 h2
  · exact hid (h1.trans h2.symm)
  · exact absurd ((hf x).symm.trans hxy).symm (hfree y hy h2)
  · exact absurd (hxy.trans (hf y)) (hfree x hx h1)
  · exact hname hxy

theorem UserStore.Inv.delete {id : Int} (hi : s.Inv) (h : s.delete id = .ok s') : s'.Inv := by
  obtain ⟨-, rfl⟩ := UserStore.delete_ok h
  have hsub {β : Type} (g : UserRow → β) : ((s.users.filter (·.id ≠ id)).map g).Sublist (s.users.map g) :=
    (List.filter_sublist _).map g
  exact ⟨hi.seq, hi.ids.sublist (hsub _), fun r hr => hi.below r (List.mem_of_mem_filter hr),
    hi.names.sublist (hsub _), fun r hr => hi.texts r (List.mem_of_mem_filter hr)⟩

/-- Every call that succeeds keeps the invariant. -/
theorem UserStore.Inv.call (hi : s.Inv) {c : UserCall} (h : s.call sha256 c = .ok s') : s'.Inv := by
  cases c with
  | create => exact hi.createInsert (UserStore.createInsert_of_create h)
  | update id username role now =>
    obtain ⟨-, u, r, hu, hr, hfree, rfl⟩ := UserStore.update_ok h
    exact hi.setRow (fun _ => rfl) (hi.names_setRow (fun _ => rfl) hfree)
      fun _ _ _ => ⟨varchar_idem hu, varchar_idem hr⟩
  | updatePassword =>
    obtain ⟨-, rfl⟩ := UserStore.updatePassword_ok h
    exact hi.setRow (fun _ => rfl) (by rw [UserStore.map_setRow]; exacts [hi.names, fun _ => rfl])
      fun r hr _ => hi.texts r hr
  | delete => exact hi.delete h

/-- A rollback keeps the rows and moves the sequence on. -/
theorem UserStore.insertRollback_eq (s : UserStore) (username role : List UInt8) :
    ∃ k : Nat, s.insertRollback username role = { s with nextID := s.nextID + k } := by
  unfold UserStore.insertRollback
  split
  · exact ⟨1, rfl⟩
  · exact ⟨0, by simp⟩

theorem UserStore.rollback_eq (s : UserStore) (c : UserCall) :
    ∃ k : Nat, s.rollback c = { s with nextID := s.nextID + k } := by
  cases c with
  | create username role =>
    rw [UserStore.rollback, UserStore.createRollback]
    split
    · exact s.insertRollback_eq username role
    · exact ⟨0, by simp⟩
  | update | updatePassword | delete => exact ⟨0, by simp [UserStore.rollback]⟩

/-- Moving the sequence on keeps the invariant. -/
theorem UserStore.Inv.advance (hi : s.Inv) (k : Nat) : ({ s with nextID := s.nextID + k } : UserStore).Inv :=
  ⟨by have := hi.seq; dsimp only; omega, hi.ids, fun r hr => by have := hi.below r hr; dsimp only; omega,
    hi.names, hi.texts⟩

/-- The `INSERT` gives the next id the new password's hash. -/
theorem UserStore.Hashes.createInsert (hi : s.Inv) (hh : s.Hashes sha256 pw) {username role password : List UInt8}
    {salt : Salt} {now : Int} (h : s.createInsert sha256 username role password salt now = .ok s') :
    s'.Hashes sha256 (Function.update pw s.nextID password) := by
  obtain ⟨u, r, -, -, -, rfl⟩ := UserStore.createInsert_ok h
  intro row hrow
  rcases List.mem_append.1 hrow with hrow | hrow
  · obtain ⟨salt', hs⟩ := hh row hrow
    exact ⟨salt', by rw [hs, Function.update_noteq (hi.below row hrow).2.ne]⟩
  · rw [List.mem_singleton.1 hrow]
    exact ⟨salt, by rw [Function.update_same]⟩

/-- Every call that succeeds keeps each hash the hash of its row's password. -/
theorem UserStore.Hashes.call (hi : s.Inv) (hh : s.Hashes sha256 pw) {c : UserCall} (h : s.call sha256 c = .ok s') :
    s'.Hashes sha256 (c.passwords s pw) := by
  cases c with
  | create => exact hh.createInsert hi (UserStore.createInsert_of_create h)
  | update =>
    obtain ⟨-, u, r, -, -, -, rfl⟩ := UserStore.update_ok h
    intro row hrow
    obtain ⟨r0, hr0, rfl⟩ := UserStore.mem_setRow.1 hrow
    split <;> exact hh r0 hr0
  | updatePassword id password salt now =>
    obtain ⟨-, rfl⟩ := UserStore.updatePassword_ok h
    intro row hrow
    obtain ⟨r0, hr0, rfl⟩ := UserStore.mem_setRow.1 hrow
    split
    · rename_i he
      exact ⟨salt, by rw [UserCall.passwords, he, Function.update_same]⟩
    · rename_i he
      obtain ⟨salt', hs⟩ := hh r0 hr0
      exact ⟨salt', by rw [hs, UserCall.passwords, Function.update_noteq he]⟩
  | delete =>
    obtain ⟨-, rfl⟩ := UserStore.delete_ok h
    exact fun row hrow => hh row (List.mem_of_mem_filter hrow)

end

/-- The tables, with the password each id was last given, that calls reach
from the empty table; a call that fails rolls back. -/
inductive UserStore.Reachable (sha256 : List UInt8 → Digest) : UserStore → (Int → List UInt8) → Prop
  | empty (pw : Int → List UInt8) : Reachable sha256 UserStore.empty pw
  | call {s s' : UserStore} {pw : Int → List UInt8} (c : UserCall) :
    Reachable sha256 s pw → s.call sha256 c = .ok s' → Reachable sha256 s' (c.passwords s pw)
  | fail {s : UserStore} {pw : Int → List UInt8} (c : UserCall) {e : UserError} :
    Reachable sha256 s pw → s.call sha256 c = .error e → Reachable sha256 (s.rollback c) pw

theorem UserStore.Reachable.inv {sha256 : List UInt8 → Digest} {s : UserStore} {pw : Int → List UInt8}
    (h : UserStore.Reachable sha256 s pw) : s.Inv ∧ s.Hashes sha256 pw := by
  induction h with
  | empty => exact ⟨UserStore.inv_empty, nofun⟩
  | call c _ hc ih => exact ⟨ih.1.call hc, ih.2.call ih.1 hc⟩
  | @fail s _ c _ _ _ ih =>
    obtain ⟨k, hk⟩ := s.rollback_eq c
    exact hk ▸ ⟨ih.1.advance k, ih.2⟩

/-- Calls in turn reach a reachable table, whichever of them fail. -/
theorem UserStore.Reachable.run {sha256 : List UInt8 → Digest} {s : UserStore} {pw : Int → List UInt8}
    (h : UserStore.Reachable sha256 s pw) (cs : List UserCall) :
    UserStore.Reachable sha256 (UserStore.run sha256 (s, pw) cs).1 (UserStore.run sha256 (s, pw) cs).2 := by
  induction cs generalizing s pw with
  | nil => exact h
  | cons c cs ih =>
    rw [UserStore.run]
    split
    · exact ih (h.call c ‹_›)
    · exact ih (h.fail c ‹_›)

/-- A `Create` of a name no stored row can have, 256 times `a`, passes its
check and fails at its `INSERT` after drawing an id: every reachable table
reaches itself with the sequence one further on. -/
theorem UserStore.Reachable.advance {sha256 : List UInt8 → Digest} {s : UserStore} {pw : Int → List UInt8}
    (h : UserStore.Reachable sha256 s pw) : UserStore.Reachable sha256 { s with nextID := s.nextID + 1 } pw := by
  have hascii : ∀ b ∈ List.replicate 256 (97 : UInt8), inRange 1 127 b = true := fun b hb => by
    rw [List.eq_of_mem_replicate hb]; rfl
  have hlong : varchar 255 (List.replicate 256 97) = none :=
    varchar_ascii_long hascii (by rw [List.length_replicate]; omega)
      (by rw [List.drop_replicate]; exact List.mem_replicate.2 ⟨by omega, rfl⟩) (by decide : (97 : UInt8) ≠ 32)
  have htext : (utf8Chars (List.replicate 256 97)).isSome = true := by rw [utf8Chars_ascii hascii]; rfl
  have hcheck := UserStore.createCheck_free htext fun row hrow hname => by
    have hstored := (h.inv.1.texts row hrow).1
    rw [hname, hlong] at hstored
    cases hstored
  have hfail : s.call sha256 (.create (List.replicate 256 97) [] [] zeroSalt 0) =
      .error (.query "ошибка создания пользователя") := by
    rw [UserStore.call, UserStore.create, hcheck, UserStore.createInsert, hlong]
  have := h.fail _ hfail
  rwa [UserStore.rollback, UserStore.createRollback, hcheck, UserStore.insertRollback, htext] at this

/-- The table `InitDefaultUser` leaves on a fresh database under `padDigest`,
`zeroSalt` and the clock at `0`, and the password it gives id `1`. -/
def UserStore.adminOnly : UserStore :=
  ⟨[⟨1, bytes "admin", hashPasswordSHA256 padDigest zeroSalt (bytes "admin"), bytes "admin", 0, 0⟩], 2⟩

def adminPasswords : Int → List UInt8 := Function.update (fun _ => []) 1 (bytes "admin")

theorem UserStore.reachable_adminOnly : UserStore.Reachable padDigest UserStore.adminOnly adminPasswords :=
  .call (.create (bytes "admin") (bytes "admin") (bytes "admin") zeroSalt 0) (.empty _) rfl

/-- `adminOnly` after `Create` of `user` with password `pw` and role `user` at
the clock `1`. -/
def UserStore.adminAndUser : UserStore :=
  ⟨UserStore.adminOnly.users ++ [⟨2, bytes "user", hashPasswordSHA256 padDigest zeroSalt (bytes "pw"), bytes "user", 1, 1⟩],
    3⟩

def adminAndUserPasswords : Int → List UInt8 := Function.update adminPasswords 2 (bytes "pw")

theorem UserStore.reachable_adminAndUser : UserStore.Reachable padDigest UserStore.adminAndUser adminAndUserPasswords :=
  .call (.create (bytes "user") (bytes "user") (bytes "pw") zeroSalt 1) UserStore.reachable_adminOnly rfl

/-! ## `CheckPassword` on the table -/

section

variable {sha256 : List UInt8 → Digest} {s : UserStore} {pw : Int → List UInt8}

theorem isSome_of_varchar {n : Nat} {v w : List UInt8} (h : varchar n v = some w) :
    (utf8Chars v).isSome = true := by
  unfold varchar at h
  split at h
  · rename_i hv; rw [hv]; rfl
  · cases h

/-- A name of the table finds its own row. -/
theorem UserStore.Inv.find_username (hi : s.Inv) {r : UserRow} (hr : r ∈ s.users) :
    s.users.find? (·.username = r.username) = some r := by
  cases hf : s.users.find? (·.username = r.username) with
  | none => exact absurd (decide_eq_true rfl) (List.find?_eq_none.1 hf r hr)
  | some row =>
    rw [List.inj_on_of_nodup_map hi.names (List.mem_of_find?_eq_some hf) hr (by simpa using List.find?_some hf)]

/-- `CheckPassword` under a row's name checks the row's hash. -/
theorem UserStore.Inv.checkPassword_of_mem (hi : s.Inv) {r : UserRow} (hr : r ∈ s.users) {username : List UInt8}
    (hname : r.username = username) (password : List UInt8) :
    s.checkPassword sha256 username password = Auth.checkPassword sha256 r.passwordHash password := by
  subst hname
  obtain ⟨cs, hcs⟩ := Option.isSome_iff_exists.1 (isSome_of_varchar (hi.texts r hr).1)
  rw [UserStore.checkPassword, hcs, hi.find_username hr]
  rfl

theorem UserStore.mem_setRow_self (f : UserRow → UserRow) {r : UserRow} (hr : r ∈ s.users) {id : Int}
    (hid : r.id = id) : f r ∈ (s.setRow id f).users :=
  UserStore.mem_setRow.2 ⟨r, hr, if_pos hid⟩

/-- `CheckPassword` on a table with the invariant: a row has the name, and the
password hashes under the row's salt like the row's own. -/
theorem UserStore.Inv.checkPassword_eq_true (hi : s.Inv) (hh : s.Hashes sha256 pw) (username password : List UInt8) :
    s.checkPassword sha256 username password = true ↔
      ∃ r ∈ s.users, r.username = username ∧ ∃ salt : Salt,
        r.passwordHash = hashPasswordSHA256 sha256 salt (pw r.id) ∧
        sha256 (salt.bytes ++ password) = sha256 (salt.bytes ++ pw r.id) := by
  constructor
  · intro h
    unfold UserStore.checkPassword at h
    split at h
    · cases h
    split at h
    · rename_i row hrow
      have hmem := List.mem_of_find?_eq_some hrow
      obtain ⟨salt, hs⟩ := hh row hmem
      rw [hs, checkPassword_hashPasswordSHA256] at h
      exact ⟨row, hmem, by simpa using List.find?_some hrow, salt, hs, h⟩
    · cases h
  · rintro ⟨r, hr, rfl, salt, hs, hpw⟩
    rw [hi.checkPassword_of_mem hr rfl, hs]
    exact (checkPassword_hashPasswordSHA256 sha256 salt _ password).2 hpw

/-- The row's own password passes. -/
theorem UserStore.Inv.checkPassword_row (hi : s.Inv) (hh : s.Hashes sha256 pw) {r : UserRow} (hr : r ∈ s.users) :
    s.checkPassword sha256 r.username (pw r.id) = true :=
  let ⟨salt, hs⟩ := hh r hr
  (hi.checkPassword_eq_true hh _ _).2 ⟨r, hr, rfl, salt, hs, rfl⟩

/-- Every reachable table has unique ids, positive and below the sequence,
unique names, every name and role as its column stores it, and every row's
password last given passing `CheckPassword` under the row's name. -/
theorem UserStore.Reachable.users_valid (hr : UserStore.Reachable sha256 s pw) :
    (s.users.map (·.id)).Nodup ∧ (s.users.map (·.username)).Nodup ∧
      ∀ r ∈ s.users, 0 < r.id ∧ r.id < s.nextID ∧ varchar 255 r.username = some r.username ∧
        varchar 50 r.role = some r.role ∧ s.checkPassword sha256 r.username (pw r.id) = true := by
  obtain ⟨hi, hh⟩ := hr.inv
  exact ⟨hi.ids, hi.names, fun r hrow => ⟨(hi.below r hrow).1, (hi.below r hrow).2, (hi.texts r hrow).1,
    (hi.texts r hrow).2, hi.checkPassword_row hh hrow⟩⟩

theorem UserStore.Reachable.users_valid_adminAndUser :
    UserStore.Reachable padDigest UserStore.adminAndUser adminAndUserPasswords ∧
      (UserStore.adminAndUser.users.map (·.id)).Nodup ∧ (UserStore.adminAndUser.users.map (·.username)).Nodup ∧
      ∀ r ∈ UserStore.adminAndUser.users, 0 < r.id ∧ r.id < UserStore.adminAndUser.nextID ∧
        varchar 255 r.username = some r.username ∧ varchar 50 r.role = some r.role ∧
        UserStore.adminAndUser.checkPassword padDigest r.username (adminAndUserPasswords r.id) = true :=
  ⟨UserStore.reachable_adminAndUser, UserStore.reachable_adminAndUser.users_valid⟩

/-- A name no row has fails. -/
theorem UserStore.checkPassword_absent {username : List UInt8} (h : ∀ r ∈ s.users, r.username ≠ username)
    (password : List UInt8) : s.checkPassword sha256 username password = false := by
  unfold UserStore.checkPassword
  rw [List.find?_eq_none.2 fun r hr => by simpa using h r hr]
  split <;> rfl

end

/-! ## Credentials across the calls -/

section

variable {sha256 : List UInt8 → Digest} {s s' : UserStore} {pw : Int → List UInt8}

/-- On a reachable table, after `UpdatePassword` the row's name passes exactly
with the passwords that hash under the new salt like the new one: the old
password stops working unless it collides with the new. -/
theorem UserStore.checkPassword_after_updatePassword (hr : UserStore.Reachable sha256 s pw) {id : Int}
    {newPassword : List UInt8} {salt : Salt} {now : Int} (h : s.updatePassword sha256 id newPassword salt now = .ok s')
    {r : UserRow} (hrow : r ∈ s.users) (hid : r.id = id) (password : List UInt8) :
    s'.checkPassword sha256 r.username password = true ↔
      sha256 (salt.bytes ++ password) = sha256 (salt.bytes ++ newPassword) := by
  have hi' : s'.Inv := hr.inv.1.call (show s.call sha256 (.updatePassword id newPassword salt now) = .ok s' from h)
  obtain ⟨-, rfl⟩ := UserStore.updatePassword_ok h
  rw [hi'.checkPassword_of_mem (UserStore.mem_setRow_self _ hrow hid) rfl]
  exact checkPassword_hashPasswordSHA256 sha256 salt newPassword password

theorem UserStore.checkPassword_after_updatePassword_admin :
    UserStore.Reachable padDigest UserStore.adminOnly adminPasswords ∧
      UserStore.adminOnly.updatePassword padDigest 1 (bytes "secret") zeroSalt 1 =
        .ok ⟨[⟨1, bytes "admin", hashPasswordSHA256 padDigest zeroSalt (bytes "secret"), bytes "admin", 0, 1⟩], 2⟩ ∧
      (⟨1, bytes "admin", hashPasswordSHA256 padDigest zeroSalt (bytes "admin"), bytes "admin", 0, 0⟩ : UserRow) ∈
        UserStore.adminOnly.users ∧
      (UserStore.checkPassword padDigest
          ⟨[⟨1, bytes "admin", hashPasswordSHA256 padDigest zeroSalt (bytes "secret"), bytes "admin", 0, 1⟩], 2⟩
          (bytes "admin") (bytes "admin") = true ↔
        padDigest (zeroSalt.bytes ++ bytes "admin") = padDigest (zeroSalt.bytes ++ bytes "secret")) ∧
      padDigest (zeroSalt.bytes ++ bytes "admin") ≠ padDigest (zeroSalt.bytes ++ bytes "secret") :=
  have h : UserStore.adminOnly.updatePassword padDigest 1 (bytes "secret") zeroSalt 1 =
      .ok ⟨[⟨1, bytes "admin", hashPasswordSHA256 padDigest zeroSalt (bytes "secret"), bytes "admin", 0, 1⟩], 2⟩ := rfl
  ⟨UserStore.reachable_adminOnly, h, List.mem_singleton_self _,
    UserStore.checkPassword_after_updatePassword UserStore.reachable_adminOnly h (List.mem_singleton_self _) rfl _,
    fun he => absurd (congrArg Digest.bytes he) (by decide)⟩

/-- On a reachable table, `Update` moves the row's credentials to the name the
column stores: under it exactly the passwords that passed under the old name
pass, and under the old name, if it changed, none. -/
theorem UserStore.checkPassword_after_update (hr : UserStore.Reachable sha256 s pw) {id : Int}
    {username role : List UInt8} {now : Int} (h : s.update id username role now = .ok s') {r : UserRow}
    (hrow : r ∈ s.users) (hid : r.id = id) {u : List UInt8} (hu : varchar 255 username = some u)
    (password : List UInt8) :
    s'.checkPassword sha256 u password = s.checkPassword sha256 r.username password ∧
      (u ≠ r.username → s'.checkPassword sha256 r.username password = false) := by
  obtain ⟨hi, -⟩ := hr.inv
  have hi' : s'.Inv := hi.call (show s.call sha256 (.update id username role now) = .ok s' from h)
  obtain ⟨-, u', role', hu', -, -, rfl⟩ := UserStore.update_ok h
  cases hu.symm.trans hu'
  refine ⟨(hi'.checkPassword_of_mem (UserStore.mem_setRow_self _ hrow hid) rfl password).trans
      (hi.checkPassword_of_mem hrow rfl password).symm,
    fun hne => UserStore.checkPassword_absent (fun row hrow'' hname => ?_) password⟩
  obtain ⟨r0, hr0, rfl⟩ := UserStore.mem_setRow.1 hrow''
  split at hname
  · exact hne hname
  · rename_i hne0
    exact hne0 ((List.inj_on_of_nodup_map hi.names hr0 hrow hname) ▸ hid)

theorem UserStore.checkPassword_after_update_rename :
    UserStore.Reachable padDigest UserStore.adminOnly adminPasswords ∧
      UserStore.adminOnly.update 1 (bytes "root") (bytes "admin") 1 =
        .ok ⟨[⟨1, bytes "root", hashPasswordSHA256 padDigest zeroSalt (bytes "admin"), bytes "admin", 0, 1⟩], 2⟩ ∧
      (⟨1, bytes "admin", hashPasswordSHA256 padDigest zeroSalt (bytes "admin"), bytes "admin", 0, 0⟩ : UserRow) ∈
        UserStore.adminOnly.users ∧
      varchar 255 (bytes "root") = some (bytes "root") ∧
      (UserStore.checkPassword padDigest
          ⟨[⟨1, bytes "root", hashPasswordSHA256 padDigest zeroSalt (bytes "admin"), bytes "admin", 0, 1⟩], 2⟩
          (bytes "root") (bytes "admin") =
          UserStore.adminOnly.checkPassword padDigest (bytes "admin") (bytes "admin") ∧
        (bytes "root" ≠ bytes "admin" → UserStore.checkPassword padDigest
          ⟨[⟨1, bytes "root", hashPasswordSHA256 padDigest zeroSalt (bytes "admin"), bytes "admin", 0, 1⟩], 2⟩
          (bytes "admin") (bytes "admin") = false)) :=
  have h : UserStore.adminOnly.update 1 (bytes "root") (bytes "admin") 1 =
      .ok ⟨[⟨1, bytes "root", hashPasswordSHA256 padDigest zeroSalt (bytes "admin"), bytes "admin", 0, 1⟩], 2⟩ := rfl
  ⟨UserStore.reachable_adminOnly, h, List.mem_singleton_self _, rfl,
    UserStore.checkPassword_after_update UserStore.reachable_adminOnly h (List.mem_singleton_self _) rfl rfl _⟩

/-- On a reachable table, take a name its column cuts to another text `u` (one
of more than 255 characters, cut at its trailing spaces) and a role its column
takes. `Create`'s check compares the name given, which no row can hold, so it
passes. When a row has the name `u`, the `INSERT` is the unique violation.
Otherwise `Create` succeeds, yet no password passes under the name given,
while the password passes under `u`. -/
theorem UserStore.checkPassword_after_create_cut (hr : UserStore.Reachable sha256 s pw)
    {username role password u r : List UInt8} (salt : Salt) (now : Int) (hu : varchar 255 username = some u)
    (hcut : u ≠ username) (hrole : varchar 50 role = some r) :
    ((∃ row ∈ s.users, row.username = u) →
        s.create sha256 username role password salt now = .error (.query "ошибка создания пользователя")) ∧
      ((∀ row ∈ s.users, row.username ≠ u) → ∃ s', s.create sha256 username role password salt now = .ok s' ∧
        (∀ candidate, s'.checkPassword sha256 username candidate = false) ∧
        s'.checkPassword sha256 u password = true) := by
  have hi := hr.inv.1
  have hgiven : ∀ row ∈ s.users, row.username ≠ username := fun row hrow hname =>
    hcut (Option.some.inj (hu.symm.trans (by rw [← hname]; exact (hi.texts row hrow).1)))
  have hcreate : s.create sha256 username role password salt now =
      if s.users.any (·.username = u) then .error (.query "ошибка создания пользователя")
      else .ok ⟨s.users ++ [⟨s.nextID, u, hashPasswordSHA256 sha256 salt password, r, now, now⟩], s.nextID + 1⟩ := by
    rw [UserStore.create, UserStore.createCheck_free (isSome_of_varchar hu) hgiven, UserStore.createInsert, hu,
      varchar_hashPasswordSHA256, hrole]
  refine ⟨fun ht => by rw [hcreate, if_pos (by simpa using ht)], fun hfree => ?_⟩
  have hok := hcreate.trans (if_neg (by simpa using hfree))
  have hi' := hi.createInsert (UserStore.createInsert_of_create hok)
  refine ⟨_, hok, fun candidate => UserStore.checkPassword_absent (fun row hrow hname => ?_) candidate, ?_⟩
  · rcases List.mem_append.1 hrow with hrow | hrow
    · exact hgiven row hrow hname
    · rw [List.mem_singleton.1 hrow] at hname
      exact hcut hname
  · rw [hi'.checkPassword_of_mem (List.mem_append_right _ (List.mem_singleton_self _)) rfl]
    exact checkPassword_own sha256 salt password

/-- The table a `Create` of 255 times `a` and a space, with password `pw` and
role `user`, leaves on a fresh database under `padDigest`, `zeroSalt` and the
clock at `0`. -/
def UserStore.cutOnly : UserStore :=
  ⟨[⟨1, List.replicate 255 97, hashPasswordSHA256 padDigest zeroSalt (bytes "pw"), bytes "user", 0, 0⟩], 2⟩

set_option maxRecDepth 8000 in
/-- The name of 255 times `a` and a space, on a fresh database: `Create`
succeeds, and the name given never passes. On the table it makes, a second
`Create` of that name is the unique violation. -/
theorem UserStore.checkPassword_after_create_cut_spaces :
    varchar 255 (List.replicate 255 97 ++ [32]) = some (List.replicate 255 97) ∧
      (List.replicate 255 97 : List UInt8) ≠ List.replicate 255 97 ++ [32] ∧
      varchar 50 (bytes "user") = some (bytes "user") ∧ UserStore.Reachable padDigest UserStore.empty (fun _ => []) ∧
      (∀ row ∈ UserStore.empty.users, row.username ≠ List.replicate 255 97) ∧
      ((∃ row ∈ UserStore.empty.users, row.username = List.replicate 255 97) →
          UserStore.empty.create padDigest (List.replicate 255 97 ++ [32]) (bytes "user") (bytes "pw") zeroSalt 0 =
            .error (.query "ошибка создания пользователя")) ∧
      ((∀ row ∈ UserStore.empty.users, row.username ≠ List.replicate 255 97) →
        ∃ s', UserStore.empty.create padDigest (List.replicate 255 97 ++ [32]) (bytes "user") (bytes "pw") zeroSalt 0 =
            .ok s' ∧
          (∀ candidate, s'.checkPassword padDigest (List.replicate 255 97 ++ [32]) candidate = false) ∧
          s'.checkPassword padDigest (List.replicate 255 97) (bytes "pw") = true) ∧
      UserStore.Reachable padDigest UserStore.cutOnly (Function.update (fun _ => []) 1 (bytes "pw")) ∧
      (∃ row ∈ UserStore.cutOnly.users, row.username = List.replicate 255 97) ∧
      ((∃ row ∈ UserStore.cutOnly.users, row.username = List.replicate 255 97) →
          UserStore.cutOnly.create padDigest (List.replicate 255 97 ++ [32]) (bytes "user") (bytes "pw2") zeroSalt 1 =
            .error (.query "ошибка создания пользователя")) ∧
      ((∀ row ∈ UserStore.cutOnly.users, row.username ≠ List.replicate 255 97) →
        ∃ s', UserStore.cutOnly.create padDigest (List.replicate 255 97 ++ [32]) (bytes "user") (bytes "pw2") zeroSalt 1 =
            .ok s' ∧
          (∀ candidate, s'.checkPassword padDigest (List.replicate 255 97 ++ [32]) candidate = false) ∧
          s'.checkPassword padDigest (List.replicate 255 97) (bytes "pw2") = true) :=
  have hu : varchar 255 (List.replicate 255 97 ++ [32]) = some (List.replicate 255 97) := rfl
  have hcut : List.replicate 255 (97 : UInt8) ≠ List.replicate 255 97 ++ [32] := fun h => by
    have := congrArg List.length h
    simp only [List.length_replicate, List.length_append, List.length_singleton] at this
    omega
  have hrole : varchar 50 (bytes "user") = some (bytes "user") := rfl
  have hc : UserStore.empty.call padDigest (.create (List.replicate 255 97 ++ [32]) (bytes "user") (bytes "pw") zeroSalt 0) =
      .ok UserStore.cutOnly := rfl
  have hr : UserStore.Reachable padDigest UserStore.cutOnly (Function.update (fun _ => []) 1 (bytes "pw")) :=
    .call _ (.empty fun _ => []) hc
  have hfresh := UserStore.checkPassword_after_create_cut (.empty fun _ => []) zeroSalt 0 hu hcut hrole
  have htaken := UserStore.checkPassword_after_create_cut hr zeroSalt 1 hu hcut hrole
  ⟨hu, hcut, hrole, .empty _, nofun, hfresh.1, hfresh.2, hr, ⟨_, List.mem_singleton_self _, rfl⟩, htaken.1, htaken.2⟩

end

end Pvz.Auth
