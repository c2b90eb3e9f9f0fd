import Mathlib.Logic.Function.Basic
import Stablemate.Lib.Run
import Stablemate.Model.Text

/-!
# Reading pages through the caches (`ostler/model.py`, `ostler/index.py`)

A process keeps what it read of each path, and shares an index directory with other processes. The
entries of the directory are named by digests.

* `IndexStore`, `key`: the store of a session and the name of an entry.
* `read_doc`, `read_links`, `feature_doc`: the reads.
* `Event`, `perform`: what happens to the files, the index and the processes.
* `direct`: what a read gives without any cache.

Paths are decoded texts. Documents are immutable here, and one has the number of its object.
-/

namespace Stablemate.Cache

abbrev Bytes := List ℕ

/-- Label, target and line. -/
abbrev Link := Text × Text × ℕ

/-- A parsed page: an item of its frontmatter is a `κ`, its sections are a `σ`. -/
structure Doc (κ σ : Type) where
  frontmatter : Option (List κ)
  raw_frontmatter : Text
  body : Text
  sections : σ

/-- A UI node: its path, and a `ν` for its other fields. -/
structure UINode (ν : Type) where
  path : Text
  rest : ν

/-- The parser. A page that does not decode has no document, and one outside the root has no nodes:
`none` raises. `parse_ui_nodes` gives the nodes without their path, which is that of the page. -/
structure Parser (κ σ ν : Type) where
  split : Bytes → Option (Doc κ σ)
  iter_links : Bytes → List Link
  parse_ui_nodes : Doc κ σ → Text → Text → Option (List ν)

/-- The file system, symlinks followed. `realpath` is `none` where it raises. -/
structure Files where
  read_bytes : Text → Option Bytes
  realpath : Text → Option Text

/-- `_DocProducts` -/
structure Products (κ σ ν : Type) where
  frontmatter : Option (List κ)
  raw_frontmatter : Text
  body : Text
  sections : σ
  ui_nodes : Option (List (UINode ν))
  links : Option (List Link)

/-- What stands in the file of an entry: products under a version, or nothing that loads as such. -/
inductive Entry (κ σ ν : Type)
  | products (schema_version : ℕ) (value : Products κ σ ν)
  | other

def SCHEMA_VERSION : ℕ := 10

/-- `_products_of(self._read(key))` -/
def Entry.read {κ σ ν : Type} : Entry κ σ ν → Option (Products κ σ ν)
  | .products schema_version value => if schema_version = SCHEMA_VERSION then some value else none
  | .other => none

/-- A store. The epoch and the real root are found when they are first asked for. -/
structure IndexStore where
  root : Text
  directory : Text
  enabled : Bool
  _epoch : Option Text := none
  _real_root : Option Text := none

/-- A document as an object: no two have one number. -/
structure Object (κ σ : Type) where
  number : ℕ
  doc : Doc κ σ

/-- `_Cached`. Of a store there is its place among those of the process. -/
structure Cached (κ σ ν : Type) where
  digest : Text
  doc : Object κ σ
  store : Option ℕ
  ui_nodes : Option (List (UINode ν))
  links : Option (List Link)

/-- A process: its two caches, its stores, the active one, and how many documents it made. -/
structure Process (κ σ ν : Type) where
  docCache : Text → Option (Cached κ σ ν) := fun _ => none
  featureDocCache : Text → Option (Object κ σ × List κ × List (UINode ν)) := fun _ => none
  stores : List IndexStore := []
  active : Option ℕ := none
  made : ℕ := 0

/-- The index directories: a directory and a key name an entry. -/
abbrev Index (κ σ ν : Type) := Text × Text → Option (Entry κ σ ν)

/-- What a process sees while it reads. -/
structure Here (κ σ ν : Type) where
  files : Files
  index : Index κ σ ν
  process : Process κ σ ν

variable {κ σ ν : Type}

/-! ## The store -/

section Store

-- `sha` is `_sha`, the digest of some chunks; `epochOf` is `epoch`, what of the version, the config
-- and the kinds holds for a root
variable (sha : List Bytes → Text) (epochOf : Files → Text → Text)

def content_sha (data : Bytes) : Text := sha [data]

def IndexStore.epoch (files : Files) (store : IndexStore) : Text := store._epoch.getD (epochOf files store.root)

def IndexStore.realRoot (files : Files) (store : IndexStore) : Option Text := store._real_root.or (files.realpath store.root)

/-- `os.path.basename` -/
def basename (path : Text) : Text := (path.reverse.takeWhile (· ≠ '/')).reverse

/-- `IndexStore.entry_name` -/
def entry_name (files : Files) (store : IndexStore) (path : Text) : Text :=
  match files.realpath path, store.realRoot files with
  | some real, some root =>
    let start := (root.reverse.dropWhile (· = '/')).reverse ++ ['/']
    if real = root then basename root ++ "/.".toList
    else if start <+: real then basename root ++ '/' :: real.drop start.length
    else path
  | _, _ => path

/-- `IndexStore.key`, given the digest of the file -/
def key (files : Files) (store : IndexStore) (path digest : Text) : Text :=
  sha [(store.epoch epochOf files).utf8, (entry_name files store path).utf8, digest.utf8]

/-- The store once it has named an entry. -/
def IndexStore.asked (files : Files) (store : IndexStore) (path : Text) : IndexStore :=
  { store with
    _epoch := some (store.epoch epochOf files)
    _real_root := if (files.realpath path).isSome then store.realRoot files else store._real_root }

/-- The store of the session, `index.active()`. -/
def Process.store (process : Process κ σ ν) : Option IndexStore := process.active.bind fun i => process.stores[i]?

/-- The active store, once it has named an entry. -/
def Here.asked (here : Here κ σ ν) (path : Text) : Here κ σ ν :=
  { here with process := { here.process with
      stores := match here.process.active with
        | none => here.process.stores
        | some i => here.process.stores.modify i fun store => store.asked epochOf here.files path } }

/-- The directory and the key of an entry in the active store, unless that is disabled. -/
def Here.entry (here : Here κ σ ν) (path digest : Text) : Option (Text × Text) :=
  here.process.store.bind fun store =>
    if store.enabled then some (store.directory, key sha epochOf here.files store path digest) else none

/-- `store.get` as products -/
def Here.get (here : Here κ σ ν) (path digest : Text) : Option (Products κ σ ν) :=
  (here.entry sha epochOf path digest).bind fun place => (here.index place).bind Entry.read

/-- `store.put`, where `written` tells whether the entry could be written. -/
def Here.put (here : Here κ σ ν) (path : Text) (value : Products κ σ ν) (digest : Text) (written : Bool) : Here κ σ ν :=
  match here.entry sha epochOf path digest with
  | some place =>
    if written then { here.asked epochOf path with index := Function.update here.index place (some (.products SCHEMA_VERSION value)) }
    else here.asked epochOf path
  | none => here.asked epochOf path

/-! ## The reads -/

variable (parser : Parser κ σ ν)

def Cached.products (cached : Cached κ σ ν) : Products κ σ ν where
  frontmatter := cached.doc.doc.frontmatter
  raw_frontmatter := cached.doc.doc.raw_frontmatter
  body := cached.doc.doc.body
  sections := cached.doc.doc.sections
  ui_nodes := cached.ui_nodes
  links := cached.links

def doc_from_products (payload : Products κ σ ν) : Doc κ σ where
  frontmatter := payload.frontmatter
  raw_frontmatter := payload.raw_frontmatter
  body := payload.body
  sections := payload.sections

/-- `_DOC_CACHE[path] = cached` -/
def Here.cache (here : Here κ σ ν) (path : Text) (cached : Cached κ σ ν) : Here κ σ ν :=
  { here with process := { here.process with docCache := Function.update here.process.docCache path (some cached) } }

/-- One more document is made. -/
def Here.make (here : Here κ σ ν) : Here κ σ ν :=
  { here with process := { here.process with made := here.process.made + 1 } }

/-- `_persist` where a store is active; what it leaves is cached. -/
def Here.persist (here : Here κ σ ν) (path : Text) (cached : Cached κ σ ν) (written : Bool) : Here κ σ ν :=
  match here.process.active with
  | none => here.cache path cached
  | some i => (here.put sha epochOf path cached.products cached.digest written).cache path { cached with store := some i }

/-- `_read_products`, and the cached products -/
def read_products (here : Here κ σ ν) (path : Text) (data : Bytes) (digest : Text) (written : Bool) :
    Option (Object κ σ) × Here κ σ ν :=
  match here.get sha epochOf path digest with
  | some payload =>
    let doc := ⟨here.process.made, doc_from_products payload⟩
    (some doc, ((here.asked epochOf path).make).cache path ⟨digest, doc, here.process.active, payload.ui_nodes, payload.links⟩)
  | none =>
    match parser.split data with
    | none => (none, here.asked epochOf path)
    | some parsed =>
      let doc := ⟨here.process.made, parsed⟩
      (some doc, ((here.asked epochOf path).make).persist sha epochOf path ⟨digest, doc, here.process.active, none, none⟩ written)

/-- `read_doc`. `none` raises. -/
def read_doc (here : Here κ σ ν) (path : Text) (written : Bool) : Option (Object κ σ) × Here κ σ ν :=
  match here.files.read_bytes path with
  | none => (none, here)
  | some data =>
    match here.process.docCache path with
    | some cached =>
      if cached.digest = content_sha sha data ∧ cached.store = here.process.active then (some cached.doc, here)
      else read_products sha epochOf parser here path data (content_sha sha data) written
    | none => read_products sha epochOf parser here path data (content_sha sha data) written

/-- `read_links` -/
def read_links (here : Here κ σ ν) (path : Text) (written written' : Bool) : Option (List Link) × Here κ σ ν :=
  match read_doc sha epochOf parser here path written with
  | (none, here) => (none, here)
  | (some doc, here) =>
    match here.process.docCache path, here.files.read_bytes path with
    | some cached, some data =>
      match cached.links with
      | some links => (some links, here)
      | none =>
        let links := parser.iter_links data
        if cached.doc.number = doc.number ∧ content_sha sha data = cached.digest then
          (some links, here.persist sha epochOf path { cached with links := some links } written')
        else (some links, here)
    | _, _ => (none, here)

/-- `replace(node, path=path)` for each node -/
def placed (path : Text) (nodes : List (UINode ν)) : List (UINode ν) := nodes.map fun node => { node with path := path }

/-- `_parse_ui_nodes` -/
def parse_ui_nodes (doc : Doc κ σ) (path root : Text) : Option (List (UINode ν)) :=
  (parser.parse_ui_nodes doc path root).map fun nodes => nodes.map fun node => ⟨path, node⟩

/-- `_ui_nodes` -/
def ui_nodes (here : Here κ σ ν) (doc : Object κ σ) (path root : Text) (written : Bool) :
    Option (List (UINode ν)) × Here κ σ ν :=
  match here.process.docCache path with
  | none => (parse_ui_nodes parser doc.doc path root, here)
  | some cached =>
    match cached.ui_nodes with
    | some nodes => (some (placed path nodes), here)
    | none =>
      match parse_ui_nodes parser doc.doc path root with
      | none => (none, here)
      | some nodes =>
        if cached.doc.number = doc.number then
          (some nodes, here.persist sha epochOf path { cached with ui_nodes := some (placed ".".toList nodes) } written)
        else (some nodes, here)

/-- `_FEATURE_DOC_CACHE[path] = (doc, frontmatter, nodes)` -/
def Here.cacheFeature (here : Here κ σ ν) (path : Text) (entry : Object κ σ × List κ × List (UINode ν)) : Here κ σ ν :=
  { here with process :=
      { here.process with featureDocCache := Function.update here.process.featureDocCache path (some entry) } }

/-- `_feature_doc`, once the cache did not know the document -/
def derive_feature_doc (here : Here κ σ ν) (doc : Object κ σ) (path root : Text) (written : Bool) :
    Option (List κ × List (UINode ν)) × Here κ σ ν :=
  match ui_nodes sha epochOf parser here doc path root written with
  | (none, here) => (none, here)
  | (some nodes, here) =>
    let frontmatter := doc.doc.frontmatter.getD []
    (some (frontmatter, nodes), here.cacheFeature path (doc, frontmatter, nodes))

/-- `_feature_doc` -/
def feature_doc (here : Here κ σ ν) (doc : Object κ σ) (path root : Text) (written : Bool) :
    Option (List κ × List (UINode ν)) × Here κ σ ν :=
  match here.process.featureDocCache path with
  | some (known, frontmatter, nodes) =>
    if known.number = doc.number then (some (frontmatter, nodes), here)
    else derive_feature_doc sha epochOf parser here doc path root written
  | none => derive_feature_doc sha epochOf parser here doc path root written

/-- `_feature_doc(read_doc(path), path, root)` -/
def read_feature_doc (here : Here κ σ ν) (path root : Text) (written written' : Bool) :
    Option (List κ × List (UINode ν)) × Here κ σ ν :=
  match read_doc sha epochOf parser here path written with
  | (none, here) => (none, here)
  | (some doc, here) => feature_doc sha epochOf parser here doc path root written'

end Store

/-! ## Runs -/

/-- The files, the index directories and the processes. -/
structure World (κ σ ν : Type) where
  files : Files
  index : Index κ σ ν
  process : ℕ → Process κ σ ν

/-- An event. The flags of a read tell whether its first and its second entry could be written. -/
inductive Event (κ σ ν : Type)
  /-- Whatever happens to the files. -/
  | edit (files : Files)
  /-- An entry is taken away, or another file stands in its place. -/
  | entry (place : Text × Text) (entry : Option (Entry κ σ ν))
  /-- A process starts. -/
  | start (pid : ℕ)
  /-- A session opens a store. -/
  | session (pid : ℕ) (root directory : Text) (enabled : Bool)
  /-- A store of before is active, or none. -/
  | use (pid : ℕ) (store : Option ℕ)
  | read_doc (pid : ℕ) (path : Text) (written : Bool)
  | read_links (pid : ℕ) (path : Text) (written written' : Bool)
  | feature_doc (pid : ℕ) (path root : Text) (written written' : Bool)

/-- What a read returns; `none` raises. -/
inductive Answer (κ σ ν : Type)
  | nothing
  | doc (doc : Option (Doc κ σ))
  | links (links : Option (List Link))
  | feature (feature : Option (List κ × List (UINode ν)))

def World.here (w : World κ σ ν) (pid : ℕ) : Here κ σ ν := ⟨w.files, w.index, w.process pid⟩

def World.set (w : World κ σ ν) (pid : ℕ) (process : Process κ σ ν) : World κ σ ν :=
  { w with process := Function.update w.process pid process }

/-- The world that a process leaves. -/
def World.back (w : World κ σ ν) (pid : ℕ) (here : Here κ σ ν) : World κ σ ν :=
  { w.set pid here.process with index := here.index }

variable (sha : List Bytes → Text) (epochOf : Files → Text → Text) (parser : Parser κ σ ν)

def World.perform (w : World κ σ ν) : Event κ σ ν → Answer κ σ ν × World κ σ ν
  | .edit files => (.nothing, { w with files })
  | .entry place entry => (.nothing, { w with index := Function.update w.index place entry })
  | .start pid => (.nothing, w.set pid {})
  | .session pid root directory enabled =>
    let stores := (w.process pid).stores
    (.nothing, w.set pid
      { w.process pid with stores := stores ++ [{ root, directory, enabled }], active := some stores.length })
  | .use pid store => (.nothing, w.set pid { w.process pid with active := store })
  | .read_doc pid path written =>
    let (doc, here) := Cache.read_doc sha epochOf parser (w.here pid) path written
    (.doc (doc.map (·.doc)), w.back pid here)
  | .read_links pid path written written' =>
    let (links, here) := Cache.read_links sha epochOf parser (w.here pid) path written written'
    (.links links, w.back pid here)
  | .feature_doc pid path root written written' =>
    let (feature, here) := read_feature_doc sha epochOf parser (w.here pid) path root written written'
    (.feature feature, w.back pid here)

/-- A process uses stores that it opened. -/
def Event.Allowed (w : World κ σ ν) : Event κ σ ν → Prop
  | .use pid store => ∀ i ∈ store, i < (w.process pid).stores.length
  | _ => True

instance (w : World κ σ ν) : ∀ e : Event κ σ ν, Decidable (e.Allowed w)
  | .use pid store => inferInstanceAs (Decidable (∀ i ∈ store, i < (w.process pid).stores.length))
  | .edit _ | .entry _ _ | .start _ | .session _ _ _ _ | .read_doc _ _ _ | .read_links _ _ _ _ |
    .feature_doc _ _ _ _ _ => .isTrue trivial

def step (w : World κ σ ν) (e : Event κ σ ν) : Option (World κ σ ν) :=
  if e.Allowed w then some (w.perform sha epochOf parser e).2 else none

/-- No entry, and no process that has read anything. -/
def init (files : Files) : World κ σ ν := ⟨files, fun _ => none, fun _ => {}⟩

/-! ## Without caches -/

/-- What a read gives if the present bytes of the file are parsed under the root. -/
def direct (files : Files) : Event κ σ ν → Answer κ σ ν
  | .read_doc _ path _ => .doc ((files.read_bytes path).bind parser.split)
  | .read_links _ path _ _ => .links ((files.read_bytes path).bind fun data =>
      (parser.split data).map fun _ => parser.iter_links data)
  | .feature_doc _ path root _ _ => .feature ((files.read_bytes path).bind fun data =>
      (parser.split data).bind fun doc =>
        (parse_ui_nodes parser doc path root).map fun nodes => (doc.frontmatter.getD [], nodes))
  | _ => .nothing

end Stablemate.Cache
