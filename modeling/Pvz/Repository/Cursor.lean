import Pvz.Repository.Like
import Pvz.Repository.Orders
import Mathlib.Data.List.Sort

/-!
# Cursor pagination of the order lists

`ListWithCursor` and `ListReturnsWithCursor`
(`src/pkg/repository/order.go:260-375`) return the rows their `WHERE`
admits, with `id < cursor` for a positive cursor, by id descending, at most
`limit`. The four list handlers (`OrderHandler.ListOrders` and `ListReturns`,
`src/pkg/handler/user.go:726-829`; `OrderRPCHandler.ListOrders` and
`ListReturns`, `src/pkg/grpc/order.go:168-253`) ask for `limit + 1` rows,
answer `has_more` when more than `limit` came, keep `limit`, and set
`next_cursor` to the last id kept.

A client that starts from an empty cursor and follows `next_cursor` while
`has_more` holds gets every matching order once, by id descending
(`cursor_pages_list_all_once`).

The HTTP handlers write `next_cursor` in decimal and `parseCursorFromString`
reads it back, the empty string as `0`; the model keeps the number. The
`filterPVZ` condition reads the clock at each request; here the clock is
fixed.
-/

namespace Pvz

/-- `ORDER BY o.id DESC`. -/
def orderByIDDesc (rows : List Order) : List Order := rows.mergeSort fun a b => decide (b.id ≤ a.id)

/-- The cursor condition: `id < cursorID` when the cursor is positive. -/
def afterCursor (cursorID : Int) (o : Order) : Bool := decide (cursorID ≤ 0) || decide (o.id < cursorID)

/-- The query of both cursor lists: the rows `p` admits after the cursor, by
id descending, at most `limit` of them. -/
def cursorQuery (p : Order → Bool) (t : OrderTable) (cursorID : Int) (limit : Nat) : List Order :=
  (orderByIDDesc (t.rows.filter fun o => p o && afterCursor cursorID o)).take limit

/-- The `WHERE` of `ListWithCursor` apart from the cursor: the search, the
customer, and with `filterPVZ` the accepted orders due after `now`. -/
def listFilter (now customerID : Int) (filterPVZ : Bool) (searchTerm : String) (o : Order) : Bool :=
  (searchTerm = "" || searchMatches searchTerm o) && (decide (customerID ≤ 0) || decide (o.customerID = customerID)) &&
    (!filterPVZ || (decide (o.state = .accepted) && decide (now < o.deadlineAt)))

/-- The `WHERE` of `ListReturnsWithCursor` apart from the cursor. -/
def returnsFilter (searchTerm : String) (o : Order) : Bool :=
  decide (o.state = .returned) && (searchTerm = "" || searchMatches searchTerm o)

/-- `ListWithCursor`, with the clock reading of its `filterPVZ` condition. -/
def listWithCursor (t : OrderTable) (now cursorID : Int) (limit : Nat) (customerID : Int) (filterPVZ : Bool)
    (searchTerm : String) : List Order :=
  cursorQuery (listFilter now customerID filterPVZ searchTerm) t cursorID limit

/-- `ListReturnsWithCursor`. -/
def listReturnsWithCursor (t : OrderTable) (cursorID : Int) (limit : Nat) (searchTerm : String) : List Order :=
  cursorQuery (returnsFilter searchTerm) t cursorID limit

/-- A page of a cursor list. -/
structure Page where
  orders : List Order
  hasMore : Bool
  nextCursor : Int

/-- What the four list handlers make of the rows after a cursor: `limit + 1`
fetched, `has_more` when more than `limit` came, the first `limit` kept, and
`next_cursor` at the last id kept (`0`, or the empty string, for an empty
page). -/
def cursorPage (fetch : Int → Nat → List Order) (cursorID : Int) (limit : Nat) : Page :=
  let orders := fetch cursorID (limit + 1)
  let hasMore := decide (orders.length > limit)
  let orders := if hasMore then orders.take limit else orders
  ⟨orders, hasMore, match orders.getLast? with
    | some o => o.id
    | none => 0⟩

/-- `defaultPageSize` of the RPC handlers. -/
def defaultPageSize : Nat := 5

/-- `maxPageSize` of the RPC handlers. -/
def maxPageSize : Nat := 100

/-- The RPC handlers' limit: the default for a non-positive one, at most the
maximum. -/
def rpcLimit (limit : Int) : Nat :=
  if limit ≤ 0 then defaultPageSize else if limit > maxPageSize then maxPageSize else limit.toNat

/-- `OrderHandler.ListOrders` once its query parameters have parsed. -/
def OrderHandler.listOrders (t : OrderTable) (now customerID cursorID : Int) (limit : Nat) (filterPVZ : Bool)
    (searchTerm : String) : Page :=
  cursorPage (fun c n => listWithCursor t now c n customerID filterPVZ searchTerm) cursorID limit

/-- `OrderHandler.ListReturns` once its query parameters have parsed. -/
def OrderHandler.listReturns (t : OrderTable) (cursorID : Int) (limit : Nat) (searchTerm : String) : Page :=
  cursorPage (fun c n => listReturnsWithCursor t c n searchTerm) cursorID limit

/-- `OrderRPCHandler.ListOrders`. -/
def OrderRPCHandler.listOrders (t : OrderTable) (now customerID cursorID limit : Int) (filterPVZ : Bool)
    (searchTerm : String) : Page :=
  cursorPage (fun c n => listWithCursor t now c n customerID filterPVZ searchTerm) cursorID (rpcLimit limit)

/-- `OrderRPCHandler.ListReturns`. -/
def OrderRPCHandler.listReturns (t : OrderTable) (cursorID limit : Int) (searchTerm : String) : Page :=
  cursorPage (fun c n => listReturnsWithCursor t c n searchTerm) cursorID (rpcLimit limit)

/-- A client that starts from `cursor` and follows `next_cursor` while
`has_more` holds, making at most `fuel` requests: the pages it receives. -/
def followCursor (page : Int → Page) : Nat → Int → List Page
  | 0, _ => []
  | fuel + 1, cursor =>
    let p := page cursor
    p :: if p.hasMore then followCursor page fuel p.nextCursor else []

/-! ## One page after another -/

/-- Pages that list `S` in order, at most `limit` to a page, with `has_more`
false on the last page only. -/
structure Walks (S : List Order) (limit : Nat) (pages : List Page) : Prop where
  orders : pages.flatMap (·.orders) = S
  bounded : ∀ pg ∈ pages, pg.orders.length ≤ limit
  hasMore : pages.map (·.hasMore) = List.replicate (pages.length - 1) true ++ [false]

section Walk

variable {fetch : Int → Nat → List Order} {S : List Order} {limit : Nat}

/-- The page at a cursor after which `fetch` reads `S` from position `m`. -/
theorem cursorPage_at {c : Int} {m : Nat} (hc : ∀ n, fetch c n = (S.drop m).take n) :
    (cursorPage fetch c limit).orders = (S.drop m).take limit ∧
      (cursorPage fetch c limit).hasMore = decide (limit < S.length - m) := by
  simp only [cursorPage, hc, List.length_take, List.length_drop, gt_iff_lt, Nat.lt_min, Nat.lt_succ_self, true_and]
  by_cases h : limit < S.length - m
  · simp only [h, decide_True, if_true, List.take_take, Nat.min_eq_left (Nat.le_succ limit), and_self]
  · have hle : (S.drop m).length ≤ limit := by rw [List.length_drop]; omega
    simp only [h, decide_False, Bool.false_eq_true, if_false, and_true,
      List.take_of_length_le (Nat.le_succ_of_le hle), List.take_of_length_le hle]

theorem cursorPage_nextCursor (c : Int) :
    (cursorPage fetch c limit).nextCursor = match (cursorPage fetch c limit).orders.getLast? with
      | some o => o.id
      | none => 0 := rfl

/-- A full page ends at position `m + limit - 1` of `S`. -/
theorem getLast?_take_drop {m : Nat} (hlim : 1 ≤ limit) (h : limit < S.length - m) :
    ((S.drop m).take limit).getLast? = S[m + limit - 1]? := by
  rw [List.getLast?_eq_getElem?, List.length_take, List.length_drop, Nat.min_eq_left (Nat.le_of_lt h),
    List.getElem?_take, if_pos (by omega), List.getElem?_drop, show m + (limit - 1) = m + limit - 1 by omega]

/-- From a cursor after which `fetch` reads `S` from position `m`, with
enough requests left, the client's pages list the rest of `S`. -/
theorem followCursor_walks (hlim : 1 ≤ limit)
    (hnext : ∀ k (hk : k < S.length) n, fetch S[k].id n = (S.drop (k + 1)).take n) :
    ∀ (fuel m : Nat) (c : Int), S.length - m < fuel → (∀ n, fetch c n = (S.drop m).take n) →
      Walks (S.drop m) limit (followCursor (fun c => cursorPage fetch c limit) fuel c)
  | 0, _, _, hf, _ => absurd hf (Nat.not_lt_zero _)
  | fuel + 1, m, c, hf, hc => by
    obtain ⟨ho, hm⟩ := @cursorPage_at fetch S limit c m hc
    simp only [followCursor, hm]
    by_cases h : limit < S.length - m
    · have hk : m + limit - 1 < S.length := by omega
      have hnc : (cursorPage fetch c limit).nextCursor = S[m + limit - 1].id := by
        rw [cursorPage_nextCursor, ho, getLast?_take_drop hlim h, List.getElem?_eq_getElem hk]
      have ih := followCursor_walks hlim hnext fuel (m + limit) (cursorPage fetch c limit).nextCursor (by omega)
        (fun n => by rw [hnc, hnext _ hk n, show m + limit - 1 + 1 = m + limit by omega])
      simp only [h, decide_True, if_true]
      have hne : (followCursor (fun c => cursorPage fetch c limit) fuel (cursorPage fetch c limit).nextCursor) ≠ [] := by
        intro he; have := ih.hasMore; rw [he] at this; simp at this
      refine ⟨?_, ?_, ?_⟩
      · rw [List.flatMap_cons, ih.orders, ho, ← List.drop_drop, List.take_append_drop]
      · intro pg hpg
        rcases List.mem_cons.1 hpg with rfl | hpg
        · rw [ho]; exact List.length_take_le _ _
        · exact ih.bounded pg hpg
      · obtain ⟨k, hk⟩ := Nat.exists_eq_add_of_lt (List.length_pos.2 hne)
        rw [List.map_cons, ih.hasMore, hm, decide_eq_true h, List.length_cons, hk, Nat.zero_add, Nat.add_sub_cancel]
        rfl
    · have hle : (S.drop m).length ≤ limit := by rw [List.length_drop]; omega
      simp only [h, decide_False, Bool.false_eq_true, if_false]
      refine ⟨?_, ?_, ?_⟩
      · rw [List.flatMap_cons, List.flatMap_nil, List.append_nil, ho, List.take_of_length_le hle]
      · intro pg hpg
        rw [List.mem_singleton.1 hpg, ho]; exact List.length_take_le _ _
      · rw [List.map_singleton, hm, decide_eq_false h]; rfl

end Walk

/-! ## The query reads the sorted rows after a position -/

/-- Ids strictly descending. -/
def IDDesc (l : List Order) : Prop := l.Pairwise fun a b => b.id < a.id

theorem orderByIDDesc_perm (rows : List Order) : List.Perm (orderByIDDesc rows) rows := List.mergeSort_perm _ _

/-- Rows with distinct ids come out of `ORDER BY o.id DESC` strictly
descending. -/
theorem orderByIDDesc_desc {rows : List Order} (h : (rows.map (·.id)).Nodup) : IDDesc (orderByIDDesc rows) := by
  have hnd : ((orderByIDDesc rows).map (·.id)).Nodup := ((orderByIDDesc_perm rows).map _).nodup_iff.2 h
  have hs : (orderByIDDesc rows).Pairwise fun a b => decide (b.id ≤ a.id) = true :=
    List.sorted_mergeSort (fun a b c h₁ h₂ => by simp only [decide_eq_true_eq] at *; omega)
      (fun a b => by simp only [Bool.or_eq_true, decide_eq_true_eq]; omega) _
  exact hs.imp₂ (fun a b h hne => lt_of_le_of_ne (of_decide_eq_true h) (Ne.symm hne)) (List.pairwise_map.1 hnd)

/-- Two orderings of the same rows with strictly descending ids agree. -/
theorem eq_of_perm_of_idDesc {l₁ l₂ : List Order} (hp : List.Perm l₁ l₂) (h₁ : IDDesc l₁) (h₂ : IDDesc l₂) :
    l₁ = l₂ :=
  @List.eq_of_perm_of_sorted Order _ ⟨fun _ _ h h' => absurd (h.trans h') (lt_irrefl _)⟩ _ _ hp h₁ h₂

/-- Filtering commutes with `ORDER BY o.id DESC` on rows with distinct ids. -/
theorem orderByIDDesc_filter {rows : List Order} (h : (rows.map (·.id)).Nodup) (q : Order → Bool) :
    orderByIDDesc (rows.filter q) = (orderByIDDesc rows).filter q :=
  eq_of_perm_of_idDesc ((orderByIDDesc_perm _).trans ((orderByIDDesc_perm rows).filter q).symm)
    (orderByIDDesc_desc (h.sublist ((List.filter_sublist _).map _))) ((orderByIDDesc_desc h).filter q)

/-- In a list with strictly descending ids, the rows below the id at `k` are
those after position `k`. -/
theorem filter_id_lt_getElem {S : List Order} (hS : IDDesc S) {k : Nat} (hk : k < S.length) :
    S.filter (fun o => decide (o.id < S[k].id)) = S.drop (k + 1) := by
  induction S generalizing k with
  | nil => exact absurd hk (Nat.not_lt_zero _)
  | cons a S ih =>
    have ha := (List.pairwise_cons.1 hS).1
    cases k with
    | zero =>
      rw [List.getElem_cons_zero, List.filter_cons_of_neg (by simp), List.filter_eq_self.2 fun b hb => decide_eq_true (ha b hb)]
      rfl
    | succ k =>
      have hk' : k < S.length := Nat.lt_of_succ_lt_succ hk
      have hlt : ¬ a.id < S[k].id := not_lt_of_lt (ha _ (List.getElem_mem hk'))
      rw [List.getElem_cons_succ, List.filter_cons_of_neg (by simpa using hlt), ih (List.pairwise_cons.1 hS).2 hk']
      rfl

section Query

variable (p : Order → Bool) (t : OrderTable)

theorem filter_ids_nodup : ((t.rows.filter p).map (·.id)).Nodup :=
  t.keys_nodup.sublist ((List.filter_sublist _).map _)

/-- The query reads the rows `p` admits, by id descending, after the cursor. -/
theorem cursorQuery_eq (c : Int) (n : Nat) :
    cursorQuery p t c n = ((orderByIDDesc (t.rows.filter p)).filter (afterCursor c)).take n := by
  rw [cursorQuery, ← orderByIDDesc_filter (filter_ids_nodup p t), List.filter_filter]
  congr 3
  funext o
  exact Bool.and_comm _ _

theorem cursorQuery_zero (n : Nat) : cursorQuery p t 0 n = ((orderByIDDesc (t.rows.filter p)).drop 0).take n := by
  rw [cursorQuery_eq, List.filter_eq_self.2 fun o _ => by simp [afterCursor], List.drop_zero]

/-- From the id of a row it returned, with every id positive, the query reads
on from the next row. -/
theorem cursorQuery_getElem (hpos : ∀ o ∈ t.rows, 0 < o.id) {k : Nat} (hk : k < (orderByIDDesc (t.rows.filter p)).length)
    (n : Nat) : cursorQuery p t (orderByIDDesc (t.rows.filter p))[k].id n = ((orderByIDDesc (t.rows.filter p)).drop (k + 1)).take n := by
  have hmem : (orderByIDDesc (t.rows.filter p))[k] ∈ t.rows :=
    List.mem_of_mem_filter ((orderByIDDesc_perm _).subset (List.getElem_mem hk))
  have hpos := hpos _ hmem
  rw [cursorQuery_eq, ← filter_id_lt_getElem (orderByIDDesc_desc (filter_ids_nodup p t)) hk]
  congr 2
  funext o
  simp only [afterCursor, show ¬ (orderByIDDesc (t.rows.filter p))[k].id ≤ 0 by omega, decide_False, Bool.false_or]

/-- What a client's pages should be over the rows `p` admits: each such row
once, by id strictly descending, at most `limit` to a page, and `has_more`
false on the last page only, so that the client stopped of itself. -/
structure ListsAllOnce (limit : Nat) (pages : List Page) : Prop where
  perm : List.Perm (pages.flatMap (·.orders)) (t.rows.filter p)
  desc : IDDesc (pages.flatMap (·.orders))
  bounded : ∀ pg ∈ pages, pg.orders.length ≤ limit
  hasMore : pages.map (·.hasMore) = List.replicate (pages.length - 1) true ++ [false]

/-- A client of a cursor query over rows with positive ids, from the empty
cursor and with more requests to make than there are rows, lists the rows
the query admits. -/
theorem followCursor_cursorQuery {fetch : Int → Nat → List Order} (hf : ∀ c n, fetch c n = cursorQuery p t c n)
    (hpos : ∀ o ∈ t.rows, 0 < o.id) {limit fuel : Nat} (hlim : 1 ≤ limit) (hfuel : t.rows.length < fuel) :
    ListsAllOnce p t limit (followCursor (fun c => cursorPage fetch c limit) fuel 0) := by
  have hlen : (orderByIDDesc (t.rows.filter p)).length ≤ t.rows.length :=
    (orderByIDDesc_perm _).length_eq.le.trans (List.length_filter_le p t.rows)
  have hw := @followCursor_walks fetch (orderByIDDesc (t.rows.filter p)) limit hlim
    (fun k hk n => (hf _ n).trans (cursorQuery_getElem p t hpos hk n)) fuel 0 0 (by omega)
    (fun n => (hf 0 n).trans (cursorQuery_zero p t n))
  rw [List.drop_zero] at hw
  exact ⟨hw.orders ▸ orderByIDDesc_perm _, hw.orders ▸ orderByIDDesc_desc (filter_ids_nodup p t), hw.bounded,
    hw.hasMore⟩

end Query

/-- The RPC handlers take a limit from 1 to 100 as it is. -/
theorem rpcLimit_of_le {limit : Nat} (h₁ : 1 ≤ limit) (h₂ : limit ≤ maxPageSize) : rpcLimit limit = limit := by
  unfold rpcLimit
  rw [if_neg (by omega), if_neg (by omega), Int.toNat_ofNat]

/-- Over a table of positive ids, with a limit from 1 to 100, each of the four
list handlers, followed from the empty cursor while `has_more` holds, lists
every order its filter admits once, by id strictly descending, at most
`limit` to a page, and stops of itself at the first page without `has_more`. -/
theorem cursor_pages_list_all_once (t : OrderTable) (hpos : ∀ o ∈ t.rows, 0 < o.id) (now customerID : Int)
    (filterPVZ : Bool) (searchTerm : String) (limit : Nat) (hlim : 1 ≤ limit ∧ limit ≤ 100) (fuel : Nat)
    (hfuel : t.rows.length < fuel) :
    ListsAllOnce (listFilter now customerID filterPVZ searchTerm) t limit
        (followCursor (fun c => OrderHandler.listOrders t now customerID c limit filterPVZ searchTerm) fuel 0) ∧
      ListsAllOnce (returnsFilter searchTerm) t limit
        (followCursor (fun c => OrderHandler.listReturns t c limit searchTerm) fuel 0) ∧
      ListsAllOnce (listFilter now customerID filterPVZ searchTerm) t limit
        (followCursor (fun c => OrderRPCHandler.listOrders t now customerID c limit filterPVZ searchTerm) fuel 0) ∧
      ListsAllOnce (returnsFilter searchTerm) t limit
        (followCursor (fun c => OrderRPCHandler.listReturns t c limit searchTerm) fuel 0) := by
  have hrpc : rpcLimit limit = limit := rpcLimit_of_le hlim.1 hlim.2
  refine ⟨followCursor_cursorQuery _ t (fun _ _ => rfl) hpos hlim.1 hfuel,
    followCursor_cursorQuery _ t (fun _ _ => rfl) hpos hlim.1 hfuel, ?_, ?_⟩
  · simp only [OrderRPCHandler.listOrders, hrpc]
    exact followCursor_cursorQuery _ t (fun _ _ => rfl) hpos hlim.1 hfuel
  · simp only [OrderRPCHandler.listReturns, hrpc]
    exact followCursor_cursorQuery _ t (fun _ _ => rfl) hpos hlim.1 hfuel

/-- Three orders, two to a page, through `OrderHandler.ListOrders` with no
filter. -/
theorem cursor_pages_list_all_once_three_rows :
    ∃ t : OrderTable, t.rows.length = 3 ∧ (∀ o ∈ t.rows, 0 < o.id) ∧ (1 ≤ 2 ∧ 2 ≤ 100) ∧ t.rows.length < 4 ∧
      ListsAllOnce (listFilter 0 0 false "") t 2
        (followCursor (fun c => OrderHandler.listOrders t 0 0 c 2 false "") 4 0) := by
  let o (id : Int) : Order := ⟨id, 1, .accepted, 5, 100, none, none, 0, 0, none, none⟩
  let t : OrderTable := ⟨[o 2, o 7, o 4], by decide, by decide⟩
  have hpos : ∀ o ∈ t.rows, 0 < o.id := by decide
  exact ⟨t, rfl, hpos, by decide, by decide,
    (cursor_pages_list_all_once t hpos 0 0 false "" 2 (by decide) 4 (by decide)).1⟩

end Pvz
