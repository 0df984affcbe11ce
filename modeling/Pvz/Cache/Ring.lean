import Pvz.Cache.GoList
import Mathlib.Data.List.Nodup

/-!
# The ring of `container/list`

A `list.List` in use is a ring: from `root` through its elements by `next`
and back, each element's `prev` the one before it. `Ring l L` says so of the
elements `L` in order, with `len` their number and every element below
`fresh`; `Chain l q L r` is the stretch of it from `q` through `L` to `r`.

Each library function the cache reaches gets one lemma saying which fields it
writes (`insert_spec`, `remove_spec`, `move_spec`); the ring's lemmas read
only those. On a ring, `Init` leaves the empty ring (`ring_init`),
`PushFront` puts a new element first (`Ring.pushFront`), `Remove` of one of
its elements drops it (`Ring.removeElem`), and `MoveToFront` puts it first
(`Ring.moveToFront`). `Back()` is its last element and a traversal from
`Front()` visits it in order (`Ring.back`, `Ring.elems`).

An element outside the ring whose `list` field still points at the list, as
`Init` leaves them, is outside all of this: `Remove` and `MoveToFront` of it
relink the ring around it (`Pvz.Cache.Concurrent`).
-/

namespace Pvz.Cache

namespace GoList

@[simp] theorem get_put (l : GoList) (a : Nat) (x : GoElem) (b : Nat) :
    (l.put a x).get b = if b = a then x else l.get b := by
  simp only [get, put, Function.update_apply]

@[simp] theorem put_fresh (l : GoList) (a : Nat) (x : GoElem) : (l.put a x).fresh = l.fresh := rfl

@[simp] theorem put_len (l : GoList) (a : Nat) (x : GoElem) : (l.put a x).len = l.len := rfl

@[simp] theorem get_mk (h : Nat → GoElem) (n : Int) (f a : Nat) : (GoList.mk h n f).get a = h a := rfl

@[simp] theorem heap_eq_get (l : GoList) (a : Nat) : l.heap a = l.get a := rfl

/-! ## What each library function writes -/

/-- `insert(e, dest)` where `dest`'s `next` is `n`. -/
theorem insert_spec {l : GoList} {e dest n : Nat} (hn : (l.get dest).next = some n) (hed : e ≠ dest) (hen : n ≠ e) :
    ∃ l', l.insert e dest = some l' ∧ l'.len = l.len + 1 ∧ l'.fresh = l.fresh ∧ ∀ x,
      (l'.get x).next = (if x = e then some n else if x = dest then some e else (l.get x).next) ∧
      (l'.get x).prev = (if x = n then some e else if x = e then some dest else (l.get x).prev) ∧
      (l'.get x).inList = (if x = e then true else (l.get x).inList) ∧
      (l'.get x).value = (l.get x).value := by
  have hde : dest ≠ e := hed.symm
  simp only [insert, setNext, setPrev, get_put, if_true, hed, hde, hen, if_false, hn, Option.map_some',
    Option.bind_eq_bind, Option.some_bind, bind, pure]
  refine ⟨_, rfl, rfl, rfl, fun x => ?_⟩
  have hne : e ≠ n := hen.symm
  by_cases hxe : x = e
  · subst hxe; simp [hed, hne]
  by_cases hxd : x = dest
  · subst hxd
    by_cases hnd : n = x
    · subst hnd; simp [hxe]
    · simp [hxe, hnd, Ne.symm hnd]
  by_cases hxn : x = n
  · subst hxn; simp [hxe, hxd, Ne.symm hxd]
  simp [hxe, hxd, hxn]

/-- `remove(e)` of an element between `p` and `n`. -/
theorem remove_spec {l : GoList} {e p n : Nat} (hp : (l.get e).prev = some p) (hn : (l.get e).next = some n)
    (hpe : p ≠ e) (hne : n ≠ e) :
    ∃ l', l.remove e = some l' ∧ l'.len = l.len - 1 ∧ l'.fresh = l.fresh ∧ ∀ x,
      (l'.get x).next = (if x = e then none else if x = p then some n else (l.get x).next) ∧
      (l'.get x).prev = (if x = e then none else if x = n then some p else (l.get x).prev) ∧
      (l'.get x).inList = (if x = e then false else (l.get x).inList) ∧
      (l'.get x).value = (l.get x).value := by
  have hep : e ≠ p := hpe.symm
  have hen : e ≠ n := hne.symm
  simp only [remove, setNext, setPrev, get_put, hp, hn, hep, hen, if_false, Option.map_some',
    Option.bind_eq_bind, Option.some_bind, bind, pure]
  refine ⟨_, rfl, rfl, rfl, fun x => ?_⟩
  by_cases hxe : x = e
  · subst hxe; simp
  by_cases hxp : x = p
  · subst hxp
    by_cases hnx : n = x
    · subst hnx; simp [hxe]
    · simp [hxe, hnx, Ne.symm hnx]
  by_cases hxn : x = n
  · subst hxn; simp [hxe, hxp, Ne.symm hxp]
  simp [hxe, hxp, hxn]

/-- `move(e, dest)` of an element between `p` and `n` to after `dest`, whose
`next` is `m`. -/
theorem move_spec {l : GoList} {e dest p n m : Nat} (hp : (l.get e).prev = some p) (hn : (l.get e).next = some n)
    (hm : (l.get dest).next = some m) (hed : e ≠ dest) (hpe : p ≠ e) (hne : n ≠ e) (hpd : p ≠ dest) (hme : m ≠ e) :
    ∃ l', l.move e dest = some l' ∧ l'.len = l.len ∧ l'.fresh = l.fresh ∧ ∀ x,
      (l'.get x).next = (if x = dest then some e else if x = e then some m else if x = p then some n
        else (l.get x).next) ∧
      (l'.get x).prev = (if x = m then some e else if x = e then some dest else if x = n then some p
        else (l.get x).prev) ∧
      (l'.get x).inList = (l.get x).inList ∧ (l'.get x).value = (l.get x).value := by
  have hep : e ≠ p := hpe.symm
  have hen : e ≠ n := hne.symm
  have hde : dest ≠ e := hed.symm
  have hdp : dest ≠ p := hpd.symm
  have hem : e ≠ m := hme.symm
  simp only [move, if_neg hed, setNext, setPrev, get_put, hp, hn, hep, hen, hde, hdp, hem, if_false, if_true,
    Option.map_some', Option.bind_eq_bind, Option.some_bind, bind, pure]
  by_cases hdn : dest = n
  · subst hdn
    simp only [if_pos rfl, hdp, if_false, hm, if_neg hem, if_true, Option.map_some']
    refine ⟨_, rfl, rfl, rfl, fun x => ?_⟩
    by_cases hxd : x = dest
    · subst hxd
      by_cases hmx : m = x
      · subst hmx; simp [hde, hdp]
      · simp [hde, hdp, hmx, Ne.symm hmx]
    by_cases hxe : x = e
    · subst hxe; simp [hxd, hem, hep]
    by_cases hxp : x = p
    · subst hxp
      by_cases hmx : m = x
      · subst hmx; simp [hxd, hxe]
      · simp [hxd, hxe, hmx, Ne.symm hmx]
    by_cases hxm : x = m
    · subst hxm; simp [hxd, hxe, hxp]
    simp [hxd, hxe, hxp, hxm]
  · simp only [hdn, if_false, hm, if_neg hem, if_true, Option.map_some']
    refine ⟨_, rfl, rfl, rfl, fun x => ?_⟩
    by_cases hxd : x = dest
    · subst hxd
      by_cases hmx : m = x
      · subst hmx; simp [hde, hdp, hdn]
      · simp [hde, hdp, hdn, hmx, Ne.symm hmx, Ne.symm hdn]
    by_cases hxe : x = e
    · subst hxe; simp [hxd, hem, hep, hen]
    by_cases hxp : x = p
    · subst hxp
      by_cases hmx : m = x
      · subst hmx
        by_cases hnx : n = m
        · subst hnx; simp [hxd, hxe]
        · simp [hxd, hxe, hnx, Ne.symm hnx]
      · by_cases hnx : n = x
        · subst hnx; simp [hxd, hxe, hmx, Ne.symm hmx]
        · simp [hxd, hxe, hmx, Ne.symm hmx, hnx, Ne.symm hnx]
    by_cases hxm : x = m
    · subst hxm
      by_cases hnx : n = x
      · subst hnx; simp [hxd, hxe, hxp]
      · simp [hxd, hxe, hxp, hnx, Ne.symm hnx]
    by_cases hxn : x = n
    · subst hxn; simp [hxd, hxe, hxp, hxm]
    simp [hxd, hxe, hxp, hxm, hxn]

/-! ## Chains -/

/-- Each element of `L` has the one before it (`q` for the first) as `prev`
and the one after it (`r` after the last) as `next`, is marked as in the
list, and is not the root. -/
def Chain (l : GoList) : Nat → List Nat → Nat → Prop
  | _, [], _ => True
  | q, a :: L, r => (l.get a).prev = some q ∧ (l.get a).next = some (L.headD r) ∧ (l.get a).inList = true ∧
      a ≠ 0 ∧ l.Chain a L r

theorem headD_append (A B : List Nat) (r : Nat) : (A ++ B).headD r = A.headD (B.headD r) := by
  cases A <;> rfl

theorem chain_append {l : GoList} {A B : List Nat} {q r : Nat} :
    l.Chain q (A ++ B) r ↔ l.Chain q A (B.headD r) ∧ l.Chain (A.getLast?.getD q) B r := by
  induction A generalizing q with
  | nil => simp [Chain]
  | cons a A ih =>
    rw [List.cons_append, Chain, Chain, ih, headD_append, List.getLast?_cons, Option.getD_some]
    simp only [and_assoc]

theorem Chain.ne_zero {l : GoList} {q r : Nat} : ∀ {L : List Nat}, l.Chain q L r → ∀ a ∈ L, a ≠ 0
  | [], _, _, ha => absurd ha (List.not_mem_nil _)
  | b :: L, ⟨_, _, _, hb, h⟩, a, ha => by
    rcases List.mem_cons.1 ha with rfl | ha
    · exact hb
    · exact h.ne_zero a ha

theorem Chain.inList {l : GoList} {q r : Nat} : ∀ {L : List Nat}, l.Chain q L r → ∀ a ∈ L, (l.get a).inList = true
  | [], _, _, ha => absurd ha (List.not_mem_nil _)
  | b :: L, ⟨_, _, hb, _, h⟩, a, ha => by
    rcases List.mem_cons.1 ha with rfl | ha
    · exact hb
    · exact h.inList a ha

theorem Chain.head_prev {l : GoList} {q r x : Nat} {A : List Nat} (h : l.Chain q A r) (hx : A.head? = some x) :
    (l.get x).prev = some q := by
  cases A with
  | nil => cases hx
  | cons a A => exact Option.some.inj hx ▸ h.1

theorem Chain.last_next {l : GoList} {r x : Nat} : ∀ {q : Nat} {A : List Nat}, l.Chain q A r → A.getLast? = some x →
    (l.get x).next = some r
  | _, [], _, hx => by cases hx
  | _, [_], h, hx => Option.some.inj hx ▸ h.2.1
  | _, _ :: b :: A, h, hx => h.2.2.2.2.last_next (List.getLast?_cons_cons.symm.trans hx)

/-- Where the defaults of `headD` and `getLast?.getD` stand for a missing
element, a member of the list other than its first or last element is not
them. -/
theorem ne_headD_of_mem {x d : Nat} {A : List Nat} (hx : x ∈ A) (h : A.head? ≠ some x) : x ≠ A.headD d := by
  cases A with
  | nil => exact absurd hx (List.not_mem_nil x)
  | cons a A => exact fun he => h (congrArg some he.symm)

theorem ne_getLastD_of_mem {x d : Nat} {A : List Nat} (hx : x ∈ A) (h : A.getLast? ≠ some x) :
    x ≠ A.getLast?.getD d := by
  cases hl : A.getLast? with
  | none => exact absurd (List.getLast?_eq_none_iff.1 hl ▸ hx) (List.not_mem_nil x)
  | some z => exact fun he => h (hl.trans (congrArg some he.symm))

theorem headD_eq_of_head {x d : Nat} {A : List Nat} (h : A.head? = some x) : A.headD d = x := by
  cases A with
  | nil => cases h
  | cons a A => exact Option.some.inj h

theorem getLastD_eq_of_getLast {x d : Nat} {A : List Nat} (h : A.getLast? = some x) : A.getLast?.getD d = x := by
  rw [h, Option.getD_some]

theorem getLast?_eq_some_getD {A : List Nat} (h : A ≠ []) (d : Nat) : A.getLast? = some (A.getLast?.getD d) := by
  cases hl : A.getLast? with
  | none => exact absurd (List.getLast?_eq_none_iff.1 hl) h
  | some z => rfl

/-- An element outside `A` and other than `d` is neither `A`'s first nor its
last element, with `d` standing for the missing one. -/
theorem ne_headD_of_not_mem {x d : Nat} {A : List Nat} (hd : x ≠ d) (hA : x ∉ A) : x ≠ A.headD d := by
  cases A with
  | nil => exact hd
  | cons a A => exact fun h => hA (h ▸ List.mem_cons_self a A)

theorem ne_getLastD_of_not_mem {x d : Nat} {A : List Nat} (hd : x ≠ d) (hA : x ∉ A) : x ≠ A.getLast?.getD d := by
  cases hl : A.getLast? with
  | none => exact hd
  | some z => exact fun he => hA (he ▸ List.mem_of_getLast?_eq_some hl)

/-- A chain whose first element gets `q'` as `prev` and whose last element
gets `r'` as `next`, the rest of it untouched. -/
theorem Chain.relink {l l' : GoList} {r r' : Nat} : ∀ {q q' : Nat} {A : List Nat}, l.Chain q A r → A.Nodup →
    (∀ x ∈ A, (l'.get x).inList = (l.get x).inList) →
    (∀ x ∈ A, A.getLast? ≠ some x → (l'.get x).next = (l.get x).next) →
    (∀ x, A.getLast? = some x → (l'.get x).next = some r') →
    (∀ x ∈ A, A.head? ≠ some x → (l'.get x).prev = (l.get x).prev) →
    (∀ x, A.head? = some x → (l'.get x).prev = some q') → l'.Chain q' A r'
  | _, _, [], _, _, _, _, _, _, _ => trivial
  | _, _, [a], ⟨_, _, h₃, h₄, _⟩, _, hin, _, hlast, _, hhead =>
    ⟨hhead a rfl, hlast a rfl, (hin a (List.mem_singleton_self a)).trans h₃, h₄, trivial⟩
  | _, _, a :: b :: A, ⟨_, h₂, h₃, h₄, h₅⟩, hnd, hin, hnext, hlast, hprev, hhead => by
    have ha : a ∉ b :: A := (List.nodup_cons.1 hnd).1
    rw [List.getLast?_cons_cons] at hnext hlast
    have hne : ∀ x ∈ b :: A, (a :: b :: A).head? ≠ some x := fun x hx he => ha (Option.some.inj he ▸ hx)
    refine ⟨hhead a rfl, ?_, (hin a (List.mem_cons_self _ _)).trans h₃, h₄,
      h₅.relink (List.nodup_cons.1 hnd).2 (fun x hx => hin x (List.mem_cons_of_mem _ hx))
        (fun x hx => hnext x (List.mem_cons_of_mem _ hx)) hlast
        (fun x hx _ => hprev x (List.mem_cons_of_mem _ hx) (hne x hx)) (fun x hx => ?_)⟩
    · rw [hnext a (List.mem_cons_self _ _) fun h => ha (List.mem_of_getLast?_eq_some h), h₂]
      rfl
    · obtain rfl : b = x := Option.some.inj hx
      rw [hprev b (List.mem_cons_of_mem _ (List.mem_cons_self _ _)) (hne b (List.mem_cons_self _ _))]
      exact h₅.1

/-- A chain keeps its links when none of its elements' links is written. -/
theorem Chain.frame {l l' : GoList} {q r : Nat} {A : List Nat} (h : l.Chain q A r) (hnd : A.Nodup)
    (hs : ∀ x ∈ A, (l'.get x).next = (l.get x).next ∧ (l'.get x).prev = (l.get x).prev ∧
      (l'.get x).inList = (l.get x).inList) : l'.Chain q A r :=
  h.relink hnd (fun x hx => (hs x hx).2.2) (fun x hx _ => (hs x hx).1)
    (fun x hx => ((hs x (List.mem_of_getLast?_eq_some hx)).1).trans (h.last_next hx)) (fun x hx _ => (hs x hx).2.1)
    (fun x hx => ((hs x (List.mem_of_mem_head? hx)).2.1).trans (h.head_prev hx))

/-! ## Rings -/

/-- A well-formed list: from the root through `L` and back, of distinct
elements below `fresh`, with `len` its length. -/
structure Ring (l : GoList) (L : List Nat) : Prop where
  chain : l.Chain 0 L 0
  root_next : (l.get 0).next = some (L.headD 0)
  root_prev : (l.get 0).prev = some (L.getLast?.getD 0)
  nodup : L.Nodup
  lt_fresh : ∀ a ∈ L, a < l.fresh
  fresh_pos : 0 < l.fresh
  len : l.len = L.length

/-- `Next()` from an element of a chain visits the rest of it, given the steps. -/
theorem walk_chain {l : GoList} {q : Nat} : ∀ {L : List Nat} {n : Nat}, l.Chain q L 0 → L.length < n →
    l.walk n (some (L.headD 0)) = L
  | [], n + 1, _, _ => rfl
  | a :: L, n + 1, ⟨_, h₂, h₃, h₄, h₅⟩, hn => by
    rw [List.headD_cons, walk, if_neg h₄, h₃, if_pos rfl, h₂, walk_chain h₅ (by simp at hn; omega)]

namespace Ring

variable {l : GoList} {L : List Nat}

theorem length_lt (h : l.Ring L) : L.length < l.fresh := by
  have hsub : L ⊆ List.range' 1 (l.fresh - 1) := fun a ha => by
    have := h.chain.ne_zero a ha; have := h.lt_fresh a ha
    rw [List.mem_range'_1]; omega
  have := (List.subperm_of_subset h.nodup hsub).length_le
  rw [List.length_range'] at this
  have := h.fresh_pos
  omega

/-- The traversal of a well-formed list visits its ring. -/
theorem elems (h : l.Ring L) : l.elems = L := by
  unfold GoList.elems
  split
  · rename_i h0
    rw [h.len] at h0
    exact (List.length_eq_zero.1 (by exact_mod_cast h0)).symm
  · rw [h.root_next, walk_chain h.chain h.length_lt]

/-- `Back()` is the ring's last element. -/
theorem back (h : l.Ring L) : l.back = L.getLast? := by
  unfold GoList.back
  rw [h.len, h.root_prev]
  cases L with
  | nil => rfl
  | cons a L => rw [if_neg (by simp; omega), List.getLast?_cons, Option.getD_some]

end Ring

/-- `Init` leaves an empty ring, whatever the elements hold. -/
theorem ring_init {l : GoList} (h : 0 < l.fresh) : l.init.Ring [] where
  chain := trivial
  root_next := by simp [init]
  root_prev := by simp [init]
  nodup := List.nodup_nil
  lt_fresh := nofun
  fresh_pos := h
  len := rfl

theorem ring_new : new.Ring [] := ring_init Nat.one_pos

namespace Ring

variable {l : GoList} {L : List Nat}

/-- Writing an element's `Value` keeps the ring. -/
theorem setValue (h : l.Ring L) (a : Nat) (v : Option LruItem) : (l.put a { l.get a with value := v }).Ring L := by
  have hs : ∀ x, ((l.put a { l.get a with value := v }).get x).next = (l.get x).next ∧
      ((l.put a { l.get a with value := v }).get x).prev = (l.get x).prev ∧
      ((l.put a { l.get a with value := v }).get x).inList = (l.get x).inList := fun x => by
    by_cases hx : x = a <;> simp [hx]
  exact ⟨h.chain.frame h.nodup fun x _ => hs x, (hs 0).1.trans h.root_next, (hs 0).2.1.trans h.root_prev,
    h.nodup, h.lt_fresh, h.fresh_pos, h.len⟩

/-- The ring around one of its elements: the chains on both sides, and the
element's own links to their ends. -/
theorem cut {A B : List Nat} {e : Nat} (h : l.Ring (A ++ e :: B)) :
    l.Chain 0 A e ∧ l.Chain e B 0 ∧ (l.get e).prev = some (A.getLast?.getD 0) ∧
      (l.get e).next = some (B.headD 0) ∧ (l.get e).inList = true ∧ e ≠ 0 ∧
      A.Nodup ∧ B.Nodup ∧ e ∉ A ∧ e ∉ B ∧ ∀ x ∈ A, x ∉ B := by
  obtain ⟨hA, hp, hn, hin, he0, hB⟩ := chain_append.1 h.chain
  obtain ⟨hAnd, hBnd, hdis⟩ := List.nodup_append.1 h.nodup
  exact ⟨hA, hB, hp, hn, hin, he0, hAnd, (List.nodup_cons.1 hBnd).2, fun hx => hdis hx (List.mem_cons_self _ _),
    (List.nodup_cons.1 hBnd).1, fun x hx hb => hdis hx (List.mem_cons_of_mem _ hb)⟩

/-- `Remove` of an element of the ring unlinks it and leaves the rest a ring. -/
theorem removeElem (h : l.Ring L) {e : Nat} (he : e ∈ L) :
    ∃ l', l.removeElem e = some l' ∧ l'.Ring (L.erase e) ∧ l'.fresh = l.fresh ∧
      ∀ x, (l'.get x).value = (l.get x).value := by
  obtain ⟨A, B, rfl⟩ := List.mem_iff_append.1 he
  obtain ⟨hA, hB, hp, hn, hin, he0, hAnd, hBnd, heA, heB, hAB⟩ := h.cut
  have hpe : A.getLast?.getD 0 ≠ e := (ne_getLastD_of_not_mem he0 heA).symm
  have hne : B.headD 0 ≠ e := (ne_headD_of_not_mem he0 heB).symm
  have hAx : ∀ x ∈ A, x ≠ e ∧ x ≠ B.headD 0 := fun x hx =>
    ⟨fun h => heA (h ▸ hx), ne_headD_of_not_mem (hA.ne_zero x hx) (hAB x hx)⟩
  have hBx : ∀ x ∈ B, x ≠ e ∧ x ≠ A.getLast?.getD 0 := fun x hx =>
    ⟨fun h => heB (h ▸ hx), ne_getLastD_of_not_mem (hB.ne_zero x hx) fun ha => hAB x ha hx⟩
  obtain ⟨l', hrem, hlen, hfresh, hs⟩ := remove_spec hp hn hpe hne
  refine ⟨l', by rw [GoList.removeElem, if_pos hin]; exact hrem, ?_, hfresh, fun x => (hs x).2.2.2⟩
  rw [List.erase_append_right _ heA, List.erase_cons_head]
  refine ⟨chain_append.2 ⟨?_, ?_⟩, ?_, ?_, h.nodup.sublist ?_, fun x hx => hfresh ▸ h.lt_fresh x ?_, hfresh ▸ h.fresh_pos, ?_⟩
  · refine hA.relink hAnd (fun x hx => ?_) (fun x hx hxl => ?_) (fun x hxl => ?_) (fun x hx _ => ?_) (fun x hxh => ?_)
    · rw [(hs x).2.2.1, if_neg (hAx x hx).1]
    · rw [(hs x).1, if_neg (hAx x hx).1, if_neg (ne_getLastD_of_mem hx hxl)]
    · have hm := List.mem_of_getLast?_eq_some hxl
      rw [(hs x).1, if_neg (hAx x hm).1, if_pos (getLastD_eq_of_getLast hxl).symm]
    · rw [(hs x).2.1, if_neg (hAx x hx).1, if_neg (hAx x hx).2]
    · have hm := List.mem_of_mem_head? hxh
      rw [(hs x).2.1, if_neg (hAx x hm).1, if_neg (hAx x hm).2, hA.head_prev hxh]
  · refine hB.relink hBnd (fun x hx => ?_) (fun x hx _ => ?_) (fun x hxl => ?_) (fun x hx hxh => ?_) (fun x hxh => ?_)
    · rw [(hs x).2.2.1, if_neg (hBx x hx).1]
    · rw [(hs x).1, if_neg (hBx x hx).1, if_neg (hBx x hx).2]
    · have hm := List.mem_of_getLast?_eq_some hxl
      rw [(hs x).1, if_neg (hBx x hm).1, if_neg (hBx x hm).2, hB.last_next hxl]
    · rw [(hs x).2.1, if_neg (hBx x hx).1, if_neg (ne_headD_of_mem hx hxh)]
    · have hm := List.mem_of_mem_head? hxh
      rw [(hs x).2.1, if_neg (hBx x hm).1, if_pos (headD_eq_of_head hxh).symm]
  · rw [(hs 0).1, if_neg he0.symm]
    cases A with
    | nil => exact if_pos rfl
    | cons a A =>
      have hp0 : A.getLast?.getD a ≠ 0 := hA.ne_zero _ (List.mem_of_getLast?_eq_some List.getLast?_cons)
      rw [List.getLast?_cons, Option.getD_some, if_neg hp0.symm, h.root_next]
      rfl
  · rw [(hs 0).2.1, if_neg he0.symm]
    cases B with
    | nil => rw [List.append_nil]; exact if_pos rfl
    | cons b B =>
      rw [List.headD_cons, if_neg (hB.ne_zero b (List.mem_cons_self b B)).symm, h.root_prev, List.getLast?_append_of_ne_nil _ (List.cons_ne_nil _ _),
        List.getLast?_append_of_ne_nil _ (List.cons_ne_nil _ _), List.getLast?_cons_cons]
  · exact (List.sublist_cons_self e B).append_left A
  · exact List.mem_append.2 ((List.mem_append.1 hx).imp_right (List.mem_cons_of_mem _))
  · rw [hlen, h.len, List.length_append, List.length_append, List.length_cons]
    push_cast
    omega

/-- `PushFront` links a new element at `fresh` in front of the ring. -/
theorem pushFront (h : l.Ring L) (v : LruItem) :
    ∃ l', l.pushFront v = some (l', l.fresh) ∧ l'.Ring (l.fresh :: L) ∧ l'.fresh = l.fresh + 1 ∧
      ∀ x, (l'.get x).value = if x = l.fresh then some v else (l.get x).value := by
  have hlazy : l.lazyInit = l := if_neg (by rw [h.root_next]; exact Option.some_ne_none _)
  have he0 : l.fresh ≠ 0 := Nat.pos_iff_ne_zero.1 h.fresh_pos
  have heL : l.fresh ∉ L := fun hm => Nat.lt_irrefl _ (h.lt_fresh _ hm)
  have hl₁ : ∀ x, (({ l.put l.fresh ⟨none, none, false, some v⟩ with fresh := l.fresh + 1 } : GoList).get x) =
      if x = l.fresh then ⟨none, none, false, some v⟩ else l.get x := fun x => by simp
  have hn₁ : (({ l.put l.fresh ⟨none, none, false, some v⟩ with fresh := l.fresh + 1 } : GoList).get 0).next =
      some (L.headD 0) := by rw [hl₁, if_neg he0.symm, h.root_next]
  obtain ⟨l', hins, hlen, hfresh, hs⟩ := insert_spec hn₁ he0 (ne_headD_of_not_mem he0 heL).symm
  simp only [hl₁] at hs
  refine ⟨l', by simp only [GoList.pushFront, hlazy, hins]; rfl, ?_, hfresh, fun x => ?_⟩
  · have hLx : ∀ x ∈ L, x ≠ l.fresh ∧ x ≠ 0 := fun x hx => ⟨fun he => heL (he ▸ hx), h.chain.ne_zero x hx⟩
    refine ⟨⟨?_, ?_, ?_, he0, ?_⟩, ?_, ?_, List.nodup_cons.2 ⟨heL, h.nodup⟩, fun x hx => ?_, hfresh ▸ Nat.succ_pos _, ?_⟩
    · rw [(hs _).2.1, if_neg (ne_headD_of_not_mem he0 heL), if_pos rfl]
    · rw [(hs _).1, if_pos rfl]
    · rw [(hs _).2.2.1, if_pos rfl]
    · refine h.chain.relink h.nodup (fun x hx => ?_) (fun x hx _ => ?_) (fun x hxl => ?_) (fun x hx hxh => ?_)
        (fun x hxh => ?_)
      · rw [(hs x).2.2.1, if_neg (hLx x hx).1, if_neg (hLx x hx).1]
      · rw [(hs x).1, if_neg (hLx x hx).1, if_neg (hLx x hx).2, if_neg (hLx x hx).1]
      · have hm := List.mem_of_getLast?_eq_some hxl
        rw [(hs x).1, if_neg (hLx x hm).1, if_neg (hLx x hm).2, if_neg (hLx x hm).1, h.chain.last_next hxl]
      · rw [(hs x).2.1, if_neg (ne_headD_of_mem hx hxh), if_neg (hLx x hx).1, if_neg (hLx x hx).1]
      · rw [(hs x).2.1, if_pos (headD_eq_of_head hxh).symm]
    · rw [(hs 0).1, if_neg he0.symm, if_pos rfl]
      rfl
    · rw [(hs 0).2.1]
      cases L with
      | nil => exact if_pos rfl
      | cons b L =>
        rw [List.headD_cons, if_neg (h.chain.ne_zero b (List.mem_cons_self b L)).symm, if_neg he0.symm,
          if_neg he0.symm, h.root_prev, List.getLast?_cons_cons]
    · rw [hfresh]
      rcases List.mem_cons.1 hx with rfl | hx
      · exact Nat.lt_succ_self _
      · exact Nat.lt_succ_of_lt (h.lt_fresh x hx)
    · rw [hlen, show ({ l.put l.fresh ⟨none, none, false, some v⟩ with fresh := l.fresh + 1 } : GoList).len = l.len
        from rfl, h.len, List.length_cons]
      push_cast
      rfl
  · rw [(hs x).2.2.2]
    split <;> rfl

/-- `MoveToFront` of an element of the ring puts it first. -/
theorem moveToFront (h : l.Ring L) {e : Nat} (he : e ∈ L) :
    ∃ l', l.moveToFront e = some l' ∧ l'.Ring (e :: L.erase e) ∧ l'.fresh = l.fresh ∧
      ∀ x, (l'.get x).value = (l.get x).value := by
  obtain ⟨A, B, rfl⟩ := List.mem_iff_append.1 he
  have hperm : (A ++ e :: B).Perm (e :: (A ++ B)) := List.perm_middle
  obtain ⟨hA, hB, hp, hn, hin, he0, hAnd, hBnd, heA, heB, hAB⟩ := h.cut
  rw [List.erase_append_right _ heA, List.erase_cons_head]
  cases A with
  | nil => exact ⟨l, if_pos (by simp [h.root_next]), h, rfl, fun _ => rfl⟩
  | cons a A =>
    have hA0 := hA.ne_zero
    have hae : a ≠ e := fun h => heA (h ▸ List.mem_cons_self a A)
    have hm : (l.get 0).next = some a := h.root_next
    have hpA : (a :: A).getLast?.getD 0 ∈ a :: A :=
      List.mem_of_getLast?_eq_some (getLast?_eq_some_getD (List.cons_ne_nil a A) 0)
    have hpe : (a :: A).getLast?.getD 0 ≠ e := fun h => heA (h ▸ hpA)
    have hne : B.headD 0 ≠ e := (ne_headD_of_not_mem he0 heB).symm
    obtain ⟨l', hmv, hlen, hfresh, hs⟩ := move_spec hp hn hm he0 hpe hne (hA0 _ hpA) hae
    have hAx : ∀ x ∈ a :: A, x ≠ 0 ∧ x ≠ e ∧ x ≠ B.headD 0 := fun x hx =>
      ⟨hA0 x hx, fun h => heA (h ▸ hx), ne_headD_of_not_mem (hA0 x hx) (hAB x hx)⟩
    have hBx : ∀ x ∈ B, x ≠ 0 ∧ x ≠ e ∧ x ≠ (a :: A).getLast?.getD 0 ∧ x ≠ a := fun x hx =>
      ⟨hB.ne_zero x hx, fun h => heB (h ▸ hx), fun h => hAB _ hpA (h ▸ hx),
        fun h => hAB a (List.mem_cons_self a A) (h ▸ hx)⟩
    have hlast : (a :: A).getLast?.getD e = (a :: A).getLast?.getD 0 := by
      rw [List.getLast?_cons, Option.getD_some, Option.getD_some]
    refine ⟨l', by rw [GoList.moveToFront, if_neg (by simp [hin, hm, hae])]; exact hmv, ?_, hfresh,
      fun x => (hs x).2.2.2⟩
    refine ⟨⟨?_, ?_, (hs e).2.2.1.trans hin, he0, chain_append.2 ⟨?_, ?_⟩⟩, ?_, ?_,
      hperm.nodup_iff.1 h.nodup, fun x hx => hfresh ▸ h.lt_fresh x (hperm.mem_iff.2 hx), hfresh ▸ h.fresh_pos, ?_⟩
    · rw [(hs e).2.1, if_neg hae.symm, if_pos rfl]
    · rw [(hs e).1, if_neg he0, if_pos rfl]
      rfl
    · refine hA.relink hAnd (fun x hx => (hs x).2.2.1) (fun x hx hxl => ?_) (fun x hxl => ?_)
        (fun x hx hxh => ?_) (fun x hxh => ?_)
      · rw [(hs x).1, if_neg (hAx x hx).1, if_neg (hAx x hx).2.1, if_neg (ne_getLastD_of_mem hx hxl)]
      · obtain rfl : (a :: A).getLast?.getD 0 = x := getLastD_eq_of_getLast hxl
        rw [(hs _).1, if_neg (hA0 _ hpA), if_neg hpe, if_pos rfl]
      · rw [(hs x).2.1, if_neg fun h => hxh (congrArg some h.symm), if_neg (hAx x hx).2.1, if_neg (hAx x hx).2.2]
      · obtain rfl : a = x := Option.some.inj hxh
        rw [(hs a).2.1, if_pos rfl]
    · rw [hlast]
      refine hB.relink hBnd (fun x hx => (hs x).2.2.1) (fun x hx _ => ?_) (fun x hxl => ?_)
        (fun x hx hxh => ?_) (fun x hxh => ?_)
      · rw [(hs x).1, if_neg (hBx x hx).1, if_neg (hBx x hx).2.1, if_neg (hBx x hx).2.2.1]
      · have hm := List.mem_of_getLast?_eq_some hxl
        rw [(hs x).1, if_neg (hBx x hm).1, if_neg (hBx x hm).2.1, if_neg (hBx x hm).2.2.1, hB.last_next hxl]
      · rw [(hs x).2.1, if_neg (hBx x hx).2.2.2, if_neg (hBx x hx).2.1, if_neg (ne_headD_of_mem hx hxh)]
      · have hm := List.mem_of_mem_head? hxh
        rw [(hs x).2.1, if_neg (hBx x hm).2.2.2, if_neg (hBx x hm).2.1, if_pos (headD_eq_of_head hxh).symm]
    · rw [(hs 0).1, if_pos rfl]
      rfl
    · rw [(hs 0).2.1, if_neg (hA0 a (List.mem_cons_self a A)).symm, if_neg he0.symm]
      cases B with
      | nil => rw [List.append_nil, List.getLast?_cons_cons]; exact if_pos rfl
      | cons b B =>
        rw [List.headD_cons, if_neg (hBx b (List.mem_cons_self b B)).1.symm, h.root_prev, List.getLast?_cons,
          Option.getD_some, List.getLast?_append_of_ne_nil _ (List.cons_ne_nil b B),
          List.getLast?_append_of_ne_nil _ (List.cons_ne_nil e (b :: B)), List.getLast?_cons_cons, List.getLast?_cons,
          Option.getD_some, Option.getD_some]
    · rw [hlen, h.len, hperm.length_eq]

end Ring

end GoList

end Pvz.Cache
