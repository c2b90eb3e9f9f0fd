import Stablemate.Lib.Solo
import Stablemate.Model.Verbs

/-!
# Commands of several processes on one keyring store (`saddlebag/catalogue.py`, `keyring_store.py`, `verbs.py`)

Each command of the `saddlebag` tool is a process of its own over the same catalogue file and the
same keyring. It reads the whole catalogue, calls the keyring for one item, or replaces the
catalogue, and any other process can run in between. A refusal ends a command as a stop does: it
answers, but not ok. The verbs that only read (`list`, `tags`, `classify`, `doctor`) are not here.
-/

namespace Stablemate.Saddlebag.Commands

open Solo (Prog)

/-- What a command does to the records. -/
inductive Write where
  | create (secret : Secret)
  | set (name field : Text)
  | unset (name field : Text)
  | remove (name : Text)
  | tag (name : Text) (tags : List Tag)
  | untag (name : Text) (tags : List Tag)
  | setMeta (name : Text) (given : List (Text × Text))
  | unsetMeta (name : Text) (keys : List Text)
deriving DecidableEq

/-- What has been done to the store. -/
inductive Entry where
  | wrote (write : Write)
  | stored (account value : Text)
deriving DecidableEq

/-- The catalogue file, the items of the keyring, and what has been done to them, oldest first. -/
structure Store where
  catalogue : List Secret
  items : List (Text × Text)
  history : List Entry
deriving DecidableEq

/-- A part of a command. -/
abbrev Cmd (α : Type) := ExceptT Raised (Prog Store) α

/-! ## The catalogue and the keyring -/

/-- `Catalogue._load` -/
def _load : Cmd (List Secret) := (.read fun s => .done (.ok s.catalogue) : Prog Store (Except Raised (List Secret)))

/-- The `os.replace` of `Catalogue._save`. -/
def _save (write : Write) (secrets : List Secret) : Cmd Unit :=
  (.write (fun s => { s with catalogue := secrets, history := s.history ++ [.wrote write] }) (.done (.ok ())) :
    Prog Store (Except Raised Unit))

/-- `Catalogue.put` -/
def put (write : Write) (secret : Secret) : Cmd Unit := do
  let secrets ← _load
  _save write (Saddlebag.put secrets secret)

/-- `Catalogue.drop` -/
def drop (write : Write) (name : Text) : Cmd Unit := do
  let secrets ← _load
  _save write (Saddlebag.drop secrets name)

def get_password (account : Text) : Cmd (Option Text) :=
  (.read fun s => .done (.ok (s.items.lookup account)) : Prog Store (Except Raised (Option Text)))

def set_password (account value : Text) : Cmd Unit :=
  (.write (fun s => { s with
      items := setKey account value s.items, history := s.history ++ [.stored account value] }) (.done (.ok ())) :
    Prog Store (Except Raised Unit))

/-- `KeyringStore._delete`: a `PasswordDeleteError` is no error. -/
def _delete (name field : Text) : Cmd Unit :=
  (.attempt (fun s => { s with items := s.items.filter fun kv => kv.1 ≠ accountOf name field }) (.done (.ok ())) :
    Prog Store (Except Raised Unit))

/-! ## The shelf -/

/-- `KeyringStore._record` -/
def _record (name : Text) : Cmd Secret := do
  let secrets ← _load
  match find secrets name with
  | some secret => pure secret
  | none => throw (.refused (lit "no such secret: " ++ name))

def set_value (name field value : Text) : Cmd Unit := do
  let secret ← _record name
  set_password (accountOf name field) value
  put (.set name field) { secret with fields := (secret.fields ++ [field]).dedup }

def unset_value (name field : Text) : Cmd Unit := do
  let secret ← _record name
  _delete name field
  put (.unset name field) { secret with fields := secret.fields.filter (· ≠ field) }

def remove (name : Text) : Cmd Unit := do
  VALUE_FIELDS.forM (_delete name)
  drop (.remove name) name

def value (name field : Text) : Cmd (Option Text) :=
  if field = lit "username" then do
    let secrets ← _load
    pure ((find secrets name).bind (·.username))
  else if META_PREFIX.isPrefixOf field then do
    let secrets ← _load
    pure ((find secrets name).bind fun s => s.metadata.lookup (field.drop META_PREFIX.length))
  else get_password (accountOf name field)

def retag (write : Write) (name : Text) (tags : List Tag) : Cmd Unit := do
  let secret ← _record name
  put write { secret with tags }

def set_metadata (write : Write) (name : Text) (metadata : List (Text × Text)) : Cmd Unit := do
  let secret ← _record name
  put write { secret with metadata }

/-! ## The commands -/

/-- A request whose arguments have passed their checks; `value` is what `fill`, `type` and `env` read. -/
inductive Command where
  | create (secret : Secret)
  | set (name field value : Text) (h : field ∈ VALUE_FIELDS)
  | unset (name field : Text)
  | remove (name : Text)
  | tag (name : Text) (tags : List Tag)
  | untag (name : Text) (tags : List Tag)
  | setMeta (name : Text) (given : List (Text × Text))
  | unsetMeta (name : Text) (keys : List Text)
  | value (name field : Text)

/-- `Verbs._existing` -/
def _existing (name : Text) : Cmd Secret := do
  let secrets ← _load
  match find secrets name with
  | some secret => pure secret
  | none => throw (.request (lit "no such secret: " ++ name))

/-- The metadata without `keys`, or the first of them that it does not have. -/
def without (name : Text) (metadata : List (Text × Text)) (keys : List Text) : Except Raised (List (Text × Text)) :=
  keys.foldlM (fun remaining key =>
    if (remaining.map Prod.fst).contains key then .ok (remaining.filter fun kv => kv.1 ≠ key)
    else .error (.request (name ++ lit " has no metadata " ++ key))) metadata

def checked {α : Type} (r : Except Raised α) : Cmd α := (.done r : Prog Store (Except Raised α))

/-- The record without its values: `KeyringStore.create` keeps no fields. -/
def bare (secret : Secret) : Secret := { secret with fields := [] }

/-- The verb handlers, with what the shelf does. -/
def handler : Command → Cmd (Option Text)
  | .create secret => do
    let secrets ← _load
    if (find secrets secret.name).isSome then
      throw (.request (lit "secret " ++ secret.name ++ lit " already exists"))
    else
      put (.create secret) (bare secret)
      pure none
  | .set name field value _ => do
    let _ ← _existing name
    set_value name field value
    pure none
  | .unset name field => do
    let _ ← _existing name
    unset_value name field
    pure none
  | .remove name => do
    let _ ← _existing name
    remove name
    pure none
  | .tag name tags => do
    let secret ← _existing name
    retag (.tag name tags) name (secret.tags ++ tags).dedup
    pure none
  | .untag name tags => do
    let secret ← _existing name
    retag (.untag name tags) name (secret.tags.filter fun tag => !tags.contains tag)
    pure none
  | .setMeta name given => do
    let secret ← _existing name
    set_metadata (.setMeta name given) name (given.foldl (fun d kv => setKey kv.1 kv.2 d) secret.metadata)
    pure none
  | .unsetMeta name keys => do
    let secret ← _existing name
    let remaining ← checked (without name secret.metadata keys)
    set_metadata (.unsetMeta name keys) name remaining
    pure none
  | .value name field => do
    let _ ← _existing name
    value name field

def program (c : Command) : Prog Store (Except Raised (Option Text)) := (handler c).run

/-- A store with nothing in it. -/
def empty : Store := ⟨[], [], []⟩

/-! ## What the commands are for -/

/-- One record changed. -/
def edit (secrets : List Secret) (name : Text) (f : Secret → Secret) : List Secret :=
  match find secrets name with
  | some secret => Saddlebag.put secrets (f secret)
  | none => secrets

/-- What a command does to the records when it is alone. -/
def Write.on (secrets : List Secret) : Write → List Secret
  | .create secret => Saddlebag.put secrets (bare secret)
  | .set name field => edit secrets name fun s => { s with fields := (s.fields ++ [field]).dedup }
  | .unset name field => edit secrets name fun s => { s with fields := s.fields.filter (· ≠ field) }
  | .remove name => Saddlebag.drop secrets name
  | .tag name tags => edit secrets name fun s => { s with tags := (s.tags ++ tags).dedup }
  | .untag name tags => edit secrets name fun s => { s with tags := s.tags.filter fun tag => !tags.contains tag }
  | .setMeta name given => edit secrets name fun s =>
      { s with metadata := given.foldl (fun d kv => setKey kv.1 kv.2 d) s.metadata }
  | .unsetMeta name keys => edit secrets name fun s =>
      { s with metadata := s.metadata.filter fun kv => !keys.contains kv.1 }

/-- The record that a command changes. -/
def Write.name : Write → Text
  | .create secret => secret.name
  | .set name _ | .unset name _ | .remove name | .tag name _ | .untag name _ | .setMeta name _ | .unsetMeta name _ => name

/-- The writes of a history. -/
def writes (history : List Entry) : List Write :=
  history.filterMap fun e => match e with
    | .wrote write => some write
    | .stored _ _ => none

/-- What the command of a process writes. -/
def Command.write : Command → Option Write
  | .create secret => some (.create secret)
  | .set name field _ _ => some (.set name field)
  | .unset name field => some (.unset name field)
  | .remove name => some (.remove name)
  | .tag name tags => some (.tag name tags)
  | .untag name tags => some (.untag name tags)
  | .setMeta name given => some (.setMeta name given)
  | .unsetMeta name keys => some (.unsetMeta name keys)
  | .value _ _ => none

end Stablemate.Saddlebag.Commands
