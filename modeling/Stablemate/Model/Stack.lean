import Mathlib.Data.Char
import Mathlib.Data.List.Lex
import Mathlib.Data.List.Sort
import Stablemate.Lib.Dict
import Stablemate.Model.Text

/-!
# The stack catalog (`ostler/environments/spec.py`)

* `_expand_book_needs`, `_check_needs`, `_check_cycles`: what `load` does with a catalog that is read.
* `resolve_target`, `closure`: the services that some targets bring up, in order.

A path is a text. Of a service and a book the fields are kept that these functions read.
-/

namespace Stablemate.Stack

structure Service where
  book : Text
  name : Text
  needs : List Text
deriving DecidableEq

def Service.ref (service : Service) : Text := service.book ++ ":".toList ++ service.name

structure Book where
  name : Text
  /-- Its `stack.yml`, as problems name it. -/
  stack_file : Text
  needs : List Text
  services : List Text
deriving DecidableEq

/-- A catalog as `_read_book` fills it: services are filed by their references, and a book lists services that
were read. -/
structure Catalog where
  books : List (Text × Book)
  services : List (Text × Service)
  errors : List Text
  keyed : ∀ item ∈ services, item.2.ref = item.1
  named : ∀ item ∈ books, item.2.name = item.1
  known : ∀ item ∈ books, ∀ ref ∈ item.2.services, ref ∈ services.map Prod.fst

def Catalog.addErrors (catalog : Catalog) (errors : List Text) : Catalog := { catalog with errors := catalog.errors ++ errors }

/-! ## Book needs -/

/-- `replace(service, needs=tuple(dict.fromkeys([*service.needs, *wanted])))` -/
def Service.alsoNeeds (service : Service) (wanted : List Text) : Service :=
  { service with needs := (service.needs ++ wanted).eraseDups }

/-- `catalog.services[ref] = …` of a service that is there. -/
def replaced (services : List (Text × Service)) (ref : Text) (wanted : List Text) : List (Text × Service) :=
  services.map fun item => if item.1 = ref then (item.1, item.2.alsoNeeds wanted) else item

theorem keys_replaced (services : List (Text × Service)) (ref : Text) (wanted : List Text) :
    (replaced services ref wanted).map Prod.fst = services.map Prod.fst := by
  unfold replaced
  rw [List.map_map]
  refine List.map_congr_left fun item _ => ?_
  dsimp only [Function.comp]
  split <;> rfl

theorem keyed_replaced {services : List (Text × Service)} (h : ∀ item ∈ services, item.2.ref = item.1) (ref : Text)
    (wanted : List Text) : ∀ item ∈ replaced services ref wanted, item.2.ref = item.1 := by
  intro item hitem
  obtain ⟨item', hitem', rfl⟩ := List.mem_map.1 hitem
  split
  · exact h item' hitem'
  · exact h item' hitem'

def Catalog.replaceNeeds (wanted : List Text) (catalog : Catalog) (ref : Text) : Catalog where
  books := catalog.books
  services := replaced catalog.services ref wanted
  errors := catalog.errors
  keyed := keyed_replaced catalog.keyed ref wanted
  named := catalog.named
  known item hitem ref' href := (keys_replaced catalog.services ref wanted).symm ▸ catalog.known item hitem ref' href

/-- What the needs of a book come to: the services it wants, and what is wrong with its list. -/
def wantedOf (books : List (Text × Book)) (book : Book) : List Text :=
  book.needs.flatMap fun name => if name = book.name then [] else ((Dict.get books name).map (·.services)).getD []

def needErrors (books : List (Text × Book)) (book : Book) : List Text :=
  book.needs.filterMap fun name =>
    if name = book.name then
      some (book.stack_file ++ ": book \x60".toList ++ book.name ++ "\x60 lists itself in \x60needs:\x60".toList)
    else if (Dict.get books name).isNone then
      some (book.stack_file ++ ": \x60needs:\x60 names the book \x60".toList ++ name ++ "\x60, which no stack.yml defines".toList)
    else none

/-- The body of the loop over books. -/
def _expand_book_needs.expand (books : List (Text × Book)) (catalog : Catalog) (item : Text × Book) : Catalog :=
  item.2.services.foldl (Catalog.replaceNeeds (wantedOf books item.2)) (catalog.addErrors (needErrors books item.2))

def _expand_book_needs (catalog : Catalog) : Catalog :=
  catalog.books.foldl (_expand_book_needs.expand catalog.books) catalog

/-! ## Checks -/

def _check_needs (catalog : Catalog) : Catalog :=
  catalog.addErrors (catalog.services.flatMap fun item =>
    (item.2.needs.filter fun need => need ∉ catalog.services.map Prod.fst).map fun need =>
      item.2.ref ++ " needs \x60".toList ++ need ++ "\x60, which no book defines".toList)

/-- `catalog.services[ref].needs` -/
def needsOf (services : List (Text × Service)) (ref : Text) : List Text := ((Dict.get services ref).map (·.needs)).getD []

/-- The colours of the search, 1 for a service that is being visited and 2 for one that was, and the errors. -/
structure Search where
  state : List (Text × ℕ)
  errors : List Text

def cycleOf (ref : Text) (trail : List Text) (need : Text) : List Text :=
  if need ∈ trail then trail.drop (trail.idxOf need) ++ [need] else [ref, need]

def cycleError (cycle : List Text) : Text := "the needs form a cycle: ".toList ++ " -> ".toList.intercalate cycle

/-- The body of the loop of `visit` over the needs of `ref`. -/
def _check_cycles.look (services : List (Text × Service)) (visit : Text → List Text → Search → Option Search) (ref : Text)
    (trail : List Text) (s : Search) (need : Text) : Option Search :=
  if need ∉ services.map Prod.fst then some s
  else if Dict.get s.state need = some 1 then some { s with errors := s.errors ++ [cycleError (cycleOf ref trail need)] }
  else if Dict.get s.state need = none then visit need (trail ++ [need]) s
  else some s

def _check_cycles.visit (services : List (Text × Service)) : ℕ → Text → List Text → Search → Option Search
  | 0, _, _, _ => none
  | fuel + 1, ref, trail, s =>
    ((needsOf services ref).foldlM (look services (visit services fuel) ref trail) { s with state := Dict.set s.state ref 1 }).map
      fun s => { s with state := Dict.set s.state ref 2 }

/-- The loop over `sorted(catalog.services)`. -/
def _check_cycles.visitAll (services : List (Text × Service)) (s : Search) : Option Search :=
  ((services.map Prod.fst).insertionSort (· ≤ ·)).foldlM (fun s ref =>
    if Dict.get s.state ref = none then visit services (services.length + 1) ref [ref] s else some s) s

def _check_cycles (catalog : Catalog) : Option Catalog :=
  (_check_cycles.visitAll catalog.services ⟨[], catalog.errors⟩).map fun s => { catalog with errors := s.errors }

/-- What `load` does with a catalog that is read. -/
def checked (catalog : Catalog) : Option Catalog := _check_cycles (_check_needs (_expand_book_needs catalog))

/-! ## Targets -/

/-- What ends a call early: a `KeyError` with its argument; or that its recursion has not ended. -/
inductive Stop
  | keyError (argument : Text)
  | running
deriving DecidableEq

def resolve_target (catalog : Catalog) (target : Text) : Except Stop (List Text) :=
  if ':' ∈ target then
    if target ∈ catalog.services.map Prod.fst then .ok [target]
    else .error (.keyError ("no book defines the service \x60".toList ++ target ++ "\x60".toList))
  else
    match Dict.get catalog.books target with
    | some book => .ok book.services
    | none =>
      let names := (catalog.books.map Prod.fst).insertionSort (· ≤ ·)
      let known := if names = [] then "none".toList else ", ".toList.intercalate names
      .error (.keyError ("no book is named \x60".toList ++ target ++ "\x60 (books with an ops/stack.yml: ".toList ++ known ++
        ")".toList))

/-- `seen` and `ordered`. -/
structure Order where
  seen : List Text
  ordered : List Service
deriving DecidableEq

def closure.visit (services : List (Text × Service)) : ℕ → Text → Order → Except Stop Order
  | 0, _, _ => .error .running
  | fuel + 1, ref, s =>
    if ref ∈ s.seen then .ok s
    else
      match Dict.get services ref with
      | none => .error (.keyError ref)
      | some service =>
        (service.needs.foldlM (fun s need => visit services fuel need s) { s with seen := ref :: s.seen }).map
          fun s => { s with ordered := s.ordered ++ [service] }

/-- The loop over what one target resolves to. -/
def closure.bring (catalog : Catalog) (s : Order) (target : Text) : Except Stop Order :=
  (resolve_target catalog target).bind fun refs =>
    refs.foldlM (fun s ref => visit catalog.services (catalog.services.length + 1) ref s) s

def closure (catalog : Catalog) (targets : List Text) : Except Stop (List Service) :=
  (targets.foldlM (closure.bring catalog) ⟨[], []⟩).map (·.ordered)

end Stablemate.Stack
