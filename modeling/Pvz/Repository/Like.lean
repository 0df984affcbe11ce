import Pvz.Order.Model
import Mathlib.Data.List.Infix

/-!
# The search of the order lists

`List`, `ListWithCursor` and `ListReturnsWithCursor`
(`src/pkg/repository/order.go:214-375`) keep, for a non-empty search term,
the rows with `CAST(o.id AS TEXT) LIKE $1 OR CAST(o.customer_id AS TEXT) LIKE
$1`, where `$1 = "%" + searchTerm + "%"`. The term goes into the pattern as it
came, so its own `%`, `_` and `\` are `LIKE` syntax. A term without them is
searched as a substring (`searchMatches_iff`); `_` matches every id.

`CAST(n AS TEXT)` of a `BIGINT` is its decimal, as `toString` writes it.
-/

namespace Pvz

/-- Postgres `LIKE` with the default escape `\`: `%` matches any run of
characters, `_` any one character, `\` makes the next pattern character
literal, and any other character matches itself. Postgres refuses a pattern
that ends in a lone `\`; a search pattern ends in `%` and never gets there. -/
def likeMatch : List Char → List Char → Bool
  | [], s => s.isEmpty
  | c :: p, s =>
    if c = '%' then (List.range (s.length + 1)).any fun k => likeMatch p (s.drop k)
    else match s with
      | [] => false
      | d :: s =>
        if c = '_' then likeMatch p s
        else if c = '\\' then
          match p with
          | [] => false
          | e :: p => e == d && likeMatch p s
        else c == d && likeMatch p s

/-- A character `LIKE` reads as itself. -/
def plainChar (c : Char) : Bool := c ≠ '%' && c ≠ '_' && c ≠ '\\'

/-- The search filter: `CAST(o.id AS TEXT) LIKE $1 OR CAST(o.customer_id AS
TEXT) LIKE $1` with `$1 = "%" + searchTerm + "%"`. -/
def searchMatches (searchTerm : String) (o : Order) : Bool :=
  let p := ("%" ++ searchTerm ++ "%").toList
  likeMatch p (toString o.id).toList || likeMatch p (toString o.customerID).toList

theorem likeMatch_percent (p s : List Char) :
    likeMatch ('%' :: p) s = (List.range (s.length + 1)).any fun k => likeMatch p (s.drop k) := by
  rw [likeMatch.eq_def]; exact if_pos rfl

theorem likeMatch_plain {c : Char} (hc : plainChar c = true) (p : List Char) (d : Char) (s : List Char) :
    likeMatch (c :: p) (d :: s) = (c == d && likeMatch p s) := by
  simp only [plainChar, Bool.and_eq_true, decide_eq_true_eq] at hc
  rw [likeMatch.eq_def]; dsimp only; rw [if_neg hc.1.1, if_neg hc.1.2, if_neg hc.2]

theorem likeMatch_plain_nil {c : Char} (hc : plainChar c = true) (p : List Char) : likeMatch (c :: p) [] = false := by
  simp only [plainChar, Bool.and_eq_true, decide_eq_true_eq] at hc
  rw [likeMatch.eq_def]; dsimp only; rw [if_neg hc.1.1]

/-- A run of plain characters followed by `%` matches exactly the strings it
begins. -/
theorem likeMatch_plain_percent {lit : List Char} (hlit : ∀ c ∈ lit, plainChar c = true) (u : List Char) :
    likeMatch (lit ++ ['%']) u = true ↔ lit <+: u := by
  induction lit generalizing u with
  | nil =>
    simp only [List.nil_append, likeMatch_percent, List.nil_prefix, iff_true, List.any_eq_true, List.mem_range]
    exact ⟨u.length, Nat.lt_succ_self _, by simp [likeMatch]⟩
  | cons c lit ih =>
    have hc := hlit c (List.mem_cons_self _ _)
    cases u with
    | nil => simp only [List.cons_append, likeMatch_plain_nil hc, Bool.false_eq_true, List.prefix_nil, reduceCtorEq]
    | cons d u =>
      rw [List.cons_append, likeMatch_plain hc, Bool.and_eq_true, beq_iff_eq,
        ih (fun c h => hlit c (List.mem_cons_of_mem _ h)), List.cons_prefix_cons]

theorem isInfix_iff_prefix_drop {lit t : List Char} : lit <:+: t ↔ ∃ k ≤ t.length, lit <+: t.drop k := by
  constructor
  · rintro ⟨a, b, rfl⟩
    exact ⟨a.length, by simp, by simp⟩
  · rintro ⟨k, -, b, hb⟩
    exact ⟨t.take k, b, by rw [List.append_assoc, hb, List.take_append_drop]⟩

/-- `'%' || s || '%'` with `s` plain matches exactly the strings containing `s`. -/
theorem likeMatch_search {lit : List Char} (hlit : ∀ c ∈ lit, plainChar c = true) (t : List Char) :
    likeMatch ('%' :: (lit ++ ['%'])) t = true ↔ lit <:+: t := by
  rw [likeMatch_percent, isInfix_iff_prefix_drop]
  simp only [List.any_eq_true, List.mem_range, Nat.lt_succ_iff, likeMatch_plain_percent hlit]

theorem searchPattern_toList (s : String) : ("%" ++ s ++ "%").toList = '%' :: (s.toList ++ ['%']) := by
  simp only [String.toList, String.append]
  rfl

/-- A search term with no `LIKE` syntax in it keeps the orders whose id or
customer id contains it. -/
theorem searchMatches_iff {s : String} (hs : ∀ c ∈ s.toList, plainChar c = true) (o : Order) :
    searchMatches s o = true ↔ s.toList <:+: (toString o.id).toList ∨ s.toList <:+: (toString o.customerID).toList := by
  simp only [searchMatches, searchPattern_toList, Bool.or_eq_true, likeMatch_search hs]

/-- The term `12` keeps order `123` of customer `7`. -/
theorem searchMatches_iff_digits :
    (∀ c ∈ "12".toList, plainChar c = true) ∧
      searchMatches "12" ⟨123, 7, .accepted, 5, 100, none, none, 0, 0, none, none⟩ = true ∧
      (searchMatches "12" ⟨123, 7, .accepted, 5, 100, none, none, 0, 0, none, none⟩ = true ↔
        "12".toList <:+: (toString (123 : Int)).toList ∨ "12".toList <:+: (toString (7 : Int)).toList) :=
  ⟨by decide, by decide, searchMatches_iff (by decide) _⟩

/-- The term `_` keeps an order whose id and customer id are `1`, though
neither contains it: `_` is `LIKE`'s one-character wildcard. -/
theorem search_underscore_matches_any_id :
    ∃ o : Order, searchMatches "_" o = true ∧
      ¬ "_".toList <:+: (toString o.id).toList ∧ ¬ "_".toList <:+: (toString o.customerID).toList :=
  ⟨⟨1, 1, .accepted, 5, 100, none, none, 0, 0, none, none⟩, by decide, by decide, by decide⟩

end Pvz
