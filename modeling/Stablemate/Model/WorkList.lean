import Mathlib.Data.List.Dedup
import Mathlib.Data.List.Sort
import Mathlib.Data.Rat.Defs
import Mathlib.Algebra.Order.Ring.Rat
import Stablemate.Model.Text

/-!
# The work list (`worklist.py`)

A work list is a list of rows. Every operation loads the list, and writes it back whole in
one step, so an operation is a function from lists to lists; `load` and `save` themselves
and the digests are left to their own module.

What a row carries besides the fields here (its payload and its extra fields) is `content`.
-/

namespace Stablemate.WorkList

/-- One unit of work on a list. -/
structure WorkItem (P : Type*) where
  id : Text
  status : Text
  kind : Text
  order : Option ℚ
  laps : ℤ
  note : Text
  content : P
deriving DecidableEq

/-- Which status strings mean what. -/
structure Scheme where
  done : List Text
  active : List Text
  blocked : List Text

def DONE : Text := "done".toList
def ACTIVE : Text := "active".toList
def BLOCKED : Text := "blocked".toList

def DEFAULT_SCHEME : Scheme := ⟨[DONE], [ACTIVE], [BLOCKED]⟩

/-- A filter names kinds, or is `none` for every kind. -/
abbrev KindFilter := Option (List Text)

variable {P : Type*}

/-- The row is of one of the kinds. -/
def WorkItem.isKind (it : WorkItem P) (kind : KindFilter) : Bool :=
  match kind with
  | none => true
  | some kinds => kinds.contains it.kind

/-- The key of `_ordered`. -/
def WorkItem.key (it : WorkItem P) : ℚ := it.order.getD 0

/-- `_of_kind`. -/
def ofKind (items : List (WorkItem P)) (kind : KindFilter) : List (WorkItem P) :=
  items.filter fun it => it.isKind kind

/-- `_ordered`: the rows in working order, as filed when none has an order. -/
def ordered (items : List (WorkItem P)) : List (WorkItem P) :=
  if items.any fun it => it.order.isSome then
    items.insertionSort fun a b => a.key ≤ b.key
  else items

def Scheme.isActive (s : Scheme) (it : WorkItem P) : Bool := s.active.contains it.status
def Scheme.isDone (s : Scheme) (it : WorkItem P) : Bool := s.done.contains it.status
def Scheme.isBlocked (s : Scheme) (it : WorkItem P) : Bool := s.blocked.contains it.status

/-- The scheme gives each status one meaning, and the three that the code writes theirs. -/
structure Scheme.Proper (s : Scheme) : Prop where
  done : DONE ∈ s.done
  active : ACTIVE ∈ s.active
  blocked : BLOCKED ∈ s.blocked
  done_active : ∀ status ∈ s.done, status ∉ s.active
  done_blocked : ∀ status ∈ s.done, status ∉ s.blocked
  active_blocked : ∀ status ∈ s.active, status ∉ s.blocked

/-- Neither active nor done nor blocked. -/
def Scheme.isPending (s : Scheme) (it : WorkItem P) : Bool :=
  !s.isActive it && !s.isDone it && !s.isBlocked it

/-- The pending rows that may be taken; with `strict`, only the first row that is not done. -/
def pendingCandidates (scheme : Scheme) (skip : List Text) (strict : Bool)
    (rows : List (WorkItem P)) : List (WorkItem P) :=
  if strict then
    match rows.find? fun it => !scheme.isDone it with
    | some it =>
      if !scheme.isActive it && !scheme.isBlocked it && !skip.contains it.id then [it] else []
    | none => []
  else rows.filter fun it => scheme.isPending it && !skip.contains it.id

/-- `_candidates`: every row worth working, the active ones first. -/
def candidates (scheme : Scheme) (skip : List Text) (kind : KindFilter) (strict : Bool)
    (items : List (WorkItem P)) : List (WorkItem P) :=
  let rows := ordered (ofKind items kind)
  (rows.filter fun it => scheme.isActive it && !skip.contains it.id) ++
    pendingCandidates scheme skip strict rows

/-- `claim` of the module: the next `n` rows to work. -/
def nextRows (scheme : Scheme) (skip : List Text) (kind : KindFilter) (strict : Bool) (n : ℤ)
    (items : List (WorkItem P)) : List (WorkItem P) :=
  if n ≤ 0 then [] else (candidates scheme skip kind strict items).take n.toNat

/-- `select_next`: the first row to work, if there is one. -/
def select_next (scheme : Scheme) (skip : List Text) (kind : KindFilter) (strict : Bool)
    (items : List (WorkItem P)) : Option (WorkItem P) :=
  (candidates scheme skip kind strict items).head?

/-- A `Counter`: every text with how often it comes, in the order in which each comes first. -/
def tally (texts : List Text) : List (Text × ℕ) := texts.eraseDups.map fun t => (t, texts.count t)

structure WorkCounts where
  total : ℤ
  done : ℤ
  active : ℤ
  blocked : ℤ
  pending : ℤ
  remaining : ℤ
  by_status : List (Text × ℕ)
  by_category : List (Text × ℕ)
  by_kind : List (Text × ℕ)

/-- `sum(by_status[s] for s in statuses)`, where `statuses` is a set. -/
def statusSum (statuses : List Text) (rows : List (WorkItem P)) : ℕ :=
  (statuses.dedup.map fun status => (rows.map (·.status)).count status).sum

/-- `counts`; `category` is what the rows hold under a category key, if one is given. -/
def counts (scheme : Scheme) (category : Option (WorkItem P → Text)) (kind : KindFilter) (items : List (WorkItem P)) :
    WorkCounts :=
  let seq := ofKind items kind
  let total : ℤ := seq.length
  let done : ℤ := statusSum scheme.done seq
  let active : ℤ := statusSum scheme.active seq
  let blocked : ℤ := statusSum scheme.blocked seq
  let remaining := seq.filter fun it => !scheme.isDone it
  { total := total
    done := done
    active := active
    blocked := blocked
    pending := total - done - active - blocked
    remaining := total - done
    by_status := tally (seq.map (·.status))
    by_category := category.elim [] fun key => (tally (remaining.map key)).filter fun kv => kv.1 ≠ []
    by_kind := (tally (remaining.map (·.kind))).filter fun kv => kv.1 ≠ [] }

/-- A row with a lap more and a new status. -/
def WorkItem.claimed (it : WorkItem P) (status : Text) : WorkItem P :=
  { it with status := status, laps := it.laps + 1 }

/-- `WorkList.claim`: the rows taken, as they now are, and the list. Ids are unique on a list
(`add` refuses a second one), so a row is known by its id. -/
def claim (scheme : Scheme) (skip : List Text) (kind : KindFilter) (strict : Bool) (n : ℤ)
    (status : Text) (items : List (WorkItem P)) : List (WorkItem P) × List (WorkItem P) :=
  let taken := nextRows scheme skip kind strict n items
  (taken.map (·.claimed status),
    items.map fun it => if (taken.map (·.id)).contains it.id then it.claimed status else it)

/-- `WorkList._update`: what `apply` does to the rows named in `ids`. -/
def update (ids : List Text) (kind : KindFilter) (apply : WorkItem P → WorkItem P)
    (items : List (WorkItem P)) : List (WorkItem P) :=
  items.map fun it => if ids.contains it.id && it.isKind kind then apply it else it

/-- `WorkList.settle`. -/
def settle (ids : List Text) (status : Text) (kind : KindFilter) (items : List (WorkItem P)) :
    List (WorkItem P) :=
  update ids kind (fun it => { it with status := status }) items

/-- `WorkList.mark`; no note leaves the row's. -/
def mark (id : Text) (status : Text) (kind : KindFilter) (note : Option Text)
    (items : List (WorkItem P)) : List (WorkItem P) :=
  update [id] kind (fun it => { it with status := status, note := note.getD it.note }) items

/-- `WorkList.requeue`. -/
def requeue (ids : List Text) (note : Text) (kind : KindFilter) (items : List (WorkItem P)) :
    List (WorkItem P) :=
  update ids kind (fun it => { it with status := [], laps := 0, note := note }) items

/-- `WorkList.prune`. -/
def prune (id : Text) (kind : KindFilter) (items : List (WorkItem P)) : List (WorkItem P) :=
  items.filter fun it => !(it.id == id && it.isKind kind)

end Stablemate.WorkList
