import Pvz.Cache.Backends

/-!
# `container/list` at the pointer level

Go's `list.List` (`container/list/list.go`): a ring of `Element`s through a
sentinel `root`, each element with `next`, `prev`, its `list` and its
`Value`. The operations below are the sequences of field writes the library
runs, in its order; a write through a `nil` pointer panics (`none`).

Two facts of the library matter to the cache: `Init` resets the root and the
length but leaves every element's `list` field pointing at the list, and
`MoveToFront` trusts that field. An element cut off by `Init` is still taken
for a member, and moving it relinks the ring around it.

Addresses are numbers, `0` is `root`, and `fresh` is the next free address.
There is one list, so an element's `list` field is whether it points at it.
The root's `Value` is `nil`.
-/

namespace Pvz.Cache

/-- A `list.Element`. -/
structure GoElem where
  next : Option Nat
  prev : Option Nat
  inList : Bool
  value : Option LruItem

/-- A `list.List` with the heap of its elements. -/
structure GoList where
  heap : Nat → GoElem
  len : Int
  fresh : Nat

namespace GoList

/-- `*e`. -/
def get (l : GoList) (a : Nat) : GoElem := l.heap a

/-- Write element `a`. -/
def put (l : GoList) (a : Nat) (x : GoElem) : GoList := { l with heap := Function.update l.heap a x }

/-- `p.next = v` for a pointer `p`; `nil` panics. -/
def setNext (l : GoList) (p v : Option Nat) : Option GoList :=
  p.map fun a => l.put a { l.get a with next := v }

/-- `p.prev = v` for a pointer `p`; `nil` panics. -/
def setPrev (l : GoList) (p v : Option Nat) : Option GoList :=
  p.map fun a => l.put a { l.get a with prev := v }

/-- `l.Init()`: the root linked to itself, length zero. The elements are
untouched. -/
def init (l : GoList) : GoList :=
  let l := l.put 0 { l.get 0 with next := some 0 }
  { l.put 0 { l.get 0 with prev := some 0 } with len := 0 }

/-- `list.New()`. -/
def new : GoList := init ⟨fun _ => ⟨none, none, false, none⟩, 0, 1⟩

/-- `l.lazyInit()`. -/
def lazyInit (l : GoList) : GoList := if (l.get 0).next = none then l.init else l

/-- `l.insert(e, at)`, with `at` as `dest`. -/
def insert (l : GoList) (e dest : Nat) : Option GoList := do
  let l := l.put e { l.get e with prev := some dest }
  let l := l.put e { l.get e with next := (l.get dest).next }
  let l ← l.setNext (l.get e).prev (some e)
  let l ← l.setPrev (l.get e).next (some e)
  let l := l.put e { l.get e with inList := true }
  pure { l with len := l.len + 1 }

/-- `l.remove(e)`. -/
def remove (l : GoList) (e : Nat) : Option GoList := do
  let l ← l.setNext (l.get e).prev (l.get e).next
  let l ← l.setPrev (l.get e).next (l.get e).prev
  let l := l.put e { l.get e with next := none, prev := none, inList := false }
  pure { l with len := l.len - 1 }

/-- `l.move(e, at)`, with `at` as `dest`. -/
def move (l : GoList) (e dest : Nat) : Option GoList :=
  if e = dest then some l else do
  let l ← l.setNext (l.get e).prev (l.get e).next
  let l ← l.setPrev (l.get e).next (l.get e).prev
  let l := l.put e { l.get e with prev := some dest }
  let l := l.put e { l.get e with next := (l.get dest).next }
  let l ← l.setNext (l.get e).prev (some e)
  l.setPrev (l.get e).next (some e)

/-- `l.Remove(e)`: a no-op unless `e.list == l`. -/
def removeElem (l : GoList) (e : Nat) : Option GoList :=
  if (l.get e).inList then l.remove e else some l

/-- `l.PushFront(v)`: a new element at the front, and its address. -/
def pushFront (l : GoList) (v : LruItem) : Option (GoList × Nat) := do
  let l := l.lazyInit
  let e := l.fresh
  let l := { l.put e ⟨none, none, false, some v⟩ with fresh := e + 1 }
  let l ← l.insert e 0
  pure (l, e)

/-- `l.MoveToFront(e)`: a no-op unless `e.list == l` and `e` is not at the
front already. -/
def moveToFront (l : GoList) (e : Nat) : Option GoList :=
  if !(l.get e).inList || (l.get 0).next = some e then some l else l.move e 0

/-- `l.Back()`. -/
def back (l : GoList) : Option Nat := if l.len = 0 then none else (l.get 0).prev

/-- The elements `Next()` visits from `a` on, at most `n` of them: it stops
at the root, at `nil`, and after an element whose `list` is `nil`. -/
def walk (l : GoList) : Nat → Option Nat → List Nat
  | 0, _ => []
  | _, none => []
  | n + 1, some a => if a = 0 then [] else a :: if (l.get a).inList then l.walk n (l.get a).next else []

/-- The elements a traversal from `Front()` by `Next()` visits. A ring of
distinct elements has at most `fresh` of them, so `fresh` steps suffice. -/
def elems (l : GoList) : List Nat := if l.len = 0 then [] else l.walk l.fresh (l.get 0).next

end GoList

end Pvz.Cache
