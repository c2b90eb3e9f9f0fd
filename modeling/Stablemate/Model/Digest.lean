import Stablemate.Lib.Run
import Stablemate.Lib.Sha256
import Stablemate.Model.PyJson
import Stablemate.Model.WorkList

/-!
# Filing items on a JSON work list (`worklist.py`)

An item as pydantic holds it, the digest it is stamped with, the file that `JsonBackend`
writes, and the operations of `WorkList` on that file. A file is what `json.loads` reads of
it; an operation that raises is `none`.
-/

namespace Stablemate.Digest

open PyJson

/-- The `order` of an item, if it is a number a finite one. -/
inductive Order
  | none
  | int (i : ℤ)
  | float (value : ℚ) (repr : Text)

def Order.value : Order → Value
  | none => .none
  | int i => .int i
  | float value repr => .float (.fin value repr)

def Order.number : Order → Option ℚ
  | none => Option.none
  | int i => some i
  | float value _ => some value

def fieldNames : List Text :=
  ["id".toList, "status".toList, "kind".toList, "order".toList, "payload".toList,
    "digest".toList, "laps".toList, "note".toList]

/-- A `WorkItem`. A field that was never set is `none` and has its default. -/
structure Item where
  id : Option Text
  status : Option Text
  kind : Option Text
  order : Option Order
  payload : Option Entries
  digest : Option Text
  laps : Option ℤ
  note : Option Text
  extra : List (Text × Value)
  extra_names : (extra.map (·.1)).Nodup ∧ ∀ kx ∈ extra, kx.1 ∉ fieldNames

namespace Item

variable (it : Item)

def getId : Text := it.id.getD []
def getKind : Text := it.kind.getD []
def getPayload : Entries := it.payload.getD []
def getDigest : Text := it.digest.getD []

/-- The item as the selection sees it. -/
def view : WorkList.WorkItem Unit where
  id := it.getId
  status := it.status.getD []
  kind := it.getKind
  order := (it.order.getD .none).number
  laps := it.laps.getD 0
  note := it.note.getD []
  content := ()

/-- The extra fields as entries. -/
def extras : Entries := it.extra.map fun kx => (.str kx.1, kx.2)

/-- What `payload_digest` covers. -/
def content : Entries :=
  it.extras ++ [(.str "id".toList, .str it.getId), (.str "kind".toList, .str it.getKind),
    (.str "payload".toList, .dict it.getPayload)]

/-- `payload_digest`. -/
def payloadDigest : Option Text :=
  (canonical (.dict it.content)).map fun text => Sha256.hexdigest (Text.utf8 text)

end Item

/-- `verify` does not raise. -/
def verify (items : List Item) : Bool :=
  items.all fun it => it.getDigest = [] || it.payloadDigest = some it.getDigest

/-! ## The file -/

/-- A field that is written only if it is set. -/
def opt (name : String) (x : Option Value) : Entries :=
  match x with
  | some x => [(.str name.toList, x)]
  | none => []

/-- The item's set fields and its extra fields, in the order of `model_dump(exclude_unset=True)`. -/
def Item.row (it : Item) : Entries :=
  opt "id" (it.id.map .str) ++ opt "status" (it.status.map .str) ++ opt "kind" (it.kind.map .str) ++
    opt "order" (it.order.map Order.value) ++ opt "payload" (it.payload.map .dict) ++
    opt "digest" (it.digest.map .str) ++ opt "laps" (it.laps.map .int) ++
    opt "note" (it.note.map .str) ++ it.extras

/-- The entries of a field's name. -/
def get (kvs : Entries) (name : String) : Option Value := kvs.lookup (.str name.toList)

/-- A field read with its type: not there, or there and well typed. -/
def field {α : Type*} (kvs : Entries) (name : String) (read : Value → Option α) :
    Option (Option α) :=
  match get kvs name with
  | none => some none
  | some x => (read x).map some

def readText : Value → Option Text
  | .str s => some s
  | _ => none

def readInt : Value → Option ℤ
  | .int i => some i
  | _ => none

def readOrder : Value → Option Order
  | .none => some .none
  | .int i => some (.int i)
  | .float (.fin value repr) => some (.float value repr)
  | _ => none

def readPayload : Value → Option Entries
  | .dict kvs => if kvs.all fun kx => kx.1.isStr then some kvs else none
  | _ => none

/-- The entries that name no field. -/
def extraOf (kvs : Entries) : List (Text × Value) :=
  kvs.filterMap fun kx =>
    match kx.1 with
    | .str name => if name ∈ fieldNames then none else some (name, kx.2)
    | _ => none

/-- `WorkItem.model_validate`, of rows whose fields have their types. -/
def validate : Value → Option Item
  | .dict kvs => do
    let id ← field kvs "id" readText
    let status ← field kvs "status" readText
    let kind ← field kvs "kind" readText
    let order ← field kvs "order" readOrder
    let payload ← field kvs "payload" readPayload
    let digest ← field kvs "digest" readText
    let laps ← field kvs "laps" readInt
    let note ← field kvs "note" readText
    if h : ((extraOf kvs).map (·.1)).Nodup ∧ ∀ kx ∈ extraOf kvs, kx.1 ∉ fieldNames then
      some { id, status, kind, order, payload, digest, laps, note, extra := extraOf kvs, extra_names := h }
    else none
  | _ => none

def validateAll : List Value → Option (List Item)
  | [] => some []
  | v :: vs => (validate v).bind fun it => (validateAll vs).map (it :: ·)

/-- `data or []`, if that is a list. -/
def orEmpty : Value → Option (List Value)
  | .list xs => some xs
  | .none | .bool false | .str [] | .dict [] => some []
  | .int i => if i = 0 then some [] else none
  | .float (.fin value _) => if value = 0 then some [] else none
  | _ => none

/-- A work list at a JSON file, under a key of it or, with an empty key, the whole of it. -/
structure WorkList where
  itemsKey : Text
  scheme : Stablemate.WorkList.Scheme

variable (w : WorkList)

/-- `JsonBackend.load`. -/
def load (file : Option Value) : Option (List Item) :=
  match file with
  | none => some []
  | some data =>
    if w.itemsKey = [] then (orEmpty data).bind validateAll
    else
      match data with
      | .dict kvs => (orEmpty ((kvs.lookup (.str w.itemsKey)).getD (.list []))).bind validateAll
      | _ => none

/-- `JsonBackend.save`: the file that it leaves. -/
def save (file : Option Value) (items : List Item) : Option Value :=
  let rows := Value.list (dumpList (items.map fun it => .dict it.row))
  if w.itemsKey = [] then json rows
  else
    match file with
    | some (.dict kvs) => json (.dict (setItem (.str w.itemsKey) rows kvs))
    | _ => json (.dict [(.str w.itemsKey, rows)])

/-! ## The operations -/

/-- The file, and for each id the item that was last filed under it. -/
structure State where
  file : Option Value
  filed : Text → Option Item

inductive Op
  | add (batch : List Item)
  | claim (n : ℤ) (kind : Stablemate.WorkList.KindFilter) (skip : List Text) (status : Text) (strict : Bool)
  | settle (ids : List Text) (status : Text) (kind : Stablemate.WorkList.KindFilter)
  | mark (id status : Text) (kind : Stablemate.WorkList.KindFilter) (note : Option Text)
  | requeue (ids : List Text) (note : Text) (kind : Stablemate.WorkList.KindFilter)
  | prune (id : Text) (kind : Stablemate.WorkList.KindFilter)
  /-- `items`, `counts`, `snapshot` and `select_next`. -/
  | read

/-- `WorkList._load`. -/
def read (file : Option Value) : Option (List Item) :=
  (load w file).bind fun items => if verify items then some items else none

/-- The item with its digest. -/
def stamp (it : Item) : Option Item :=
  it.payloadDigest.map fun digest => { it with digest := some digest }

def stampAll : List Item → Option (List Item)
  | [] => some []
  | it :: its => (stamp it).bind fun it => (stampAll its).map (it :: ·)

/-- The items are saved. -/
def store (s : State) (items : List Item) : Option State :=
  (save w s.file items).map fun file => { s with file := some file }

/-- `WorkList._update`. -/
def update (s : State) (ids : List Text) (kind : Stablemate.WorkList.KindFilter)
    (apply : Item → Item) : Option State :=
  if ids = [] then some s
  else
    (read w s.file).bind fun items =>
      let hit (it : Item) : Bool := ids.contains it.getId && it.view.isKind kind
      if items.any hit then store w s (items.map fun it => if hit it then apply it else it)
      else some s

def step (s : State) : Op → Option State
  | .add batch =>
    (read w s.file).bind fun stored =>
      if (batch.map Item.getId).Nodup ∧ ∀ it ∈ batch, it.getId ∉ stored.map Item.getId then
        (stampAll batch).bind fun stamped =>
          if batch.isEmpty then some s
          else
            (save w s.file (stored ++ stamped)).map fun file =>
              { file := some file
                filed := fun id => (stamped.find? fun it => it.getId = id).or (s.filed id) }
      else none
  | .claim n kind skip status strict =>
    (read w s.file).bind fun items =>
      let taken := Stablemate.WorkList.nextRows w.scheme skip kind strict n (items.map Item.view)
      if taken.isEmpty then some s
      else
        store w s (items.map fun it =>
          if (taken.map (·.id)).contains it.getId then
            { it with status := some status, laps := some (it.laps.getD 0 + 1) }
          else it)
  | .settle ids status kind => update w s ids kind fun it => { it with status := some status }
  | .mark id status kind note =>
    update w s [id] kind fun it => { it with status := some status, note := note.or it.note }
  | .requeue ids note kind =>
    update w s ids kind fun it => { it with status := some [], laps := some 0, note := some note }
  | .prune id kind =>
    (read w s.file).bind fun items =>
      let kept := items.filter fun it => !(it.getId == id && it.view.isKind kind)
      if kept.length = items.length then some s else store w s kept
  | .read => (read w s.file).map fun _ => s

/-- A list whose file is there already: the items on it count as filed as they are. -/
def init (file : Option Value) : State where
  file := file
  filed := fun id => ((read w file).getD []).find? fun it => it.getId = id

/-- The item has what another was filed with, as JSON reads it back. -/
structure Same (filed it : Item) : Prop where
  id : it.getId = filed.getId
  kind : it.getKind = filed.getKind
  payload : json (.dict filed.getPayload) = some (.dict it.getPayload)
  extra : List.Forall₂ (fun a b => a.1 = b.1 ∧ json a.2 = some b.2) filed.extra it.extra

/-- What is filed keeps its canonical text over a round trip. -/
def Item.Stable (it : Item) : Prop :=
  stable (.dict it.getPayload) = true ∧ ∀ kx ∈ it.extra, stable kx.2 = true

end Stablemate.Digest
