import Mathlib.Data.List.Dedup
import Stablemate.Model.PyJson

/-!
# Secrets and the shelf they lie on (`saddlebag/models.py`, `store.py`, `catalogue.py`, `keyring_store.py`, `vault.py`)

A `Secret` is the record of a secret: it names which values exist and carries none. The values
lie behind a `SecretStore`. `keyringStore` keeps the records in a catalogue and the values in the
keyring of the operating system, `vaultStore` keeps both in Vault; either may refuse any call.

A `frozenset` is a list without repetitions whose order nothing reads.
-/

namespace Stablemate.Saddlebag

open PyJson (Value Key Entries)

/-- A text that the source spells. -/
def lit (s : String) : Text := s.toList

/-- `", ".join(texts)` -/
def commaJoin (texts : List Text) : Text := [',', ' '].intercalate texts

/-! ## Records -/

abbrev Tag := Text × Text

def FIELDS : List Text := [lit "username", lit "password", lit "totp"]

def VALUE_FIELDS : List Text := [lit "password", lit "totp"]

def META_PREFIX : Text := lit "meta."

structure Secret where
  name : Text
  username : Option Text := none
  description : Option Text := none
  var : Option Text := none
  tags : List Tag := []
  fields : List Text := []
  metadata : List (Text × Text) := []
deriving DecidableEq

def isAlpha (c : Char) : Bool := ('A' ≤ c && c ≤ 'Z') || ('a' ≤ c && c ≤ 'z')

def isDigit (c : Char) : Bool := '0' ≤ c && c ≤ '9'

/-- A pattern that wants one character of `first` and then any number of `more`. -/
def spelled (first more : Char → Bool) : Text → Bool
  | [] => false
  | c :: cs => first c && cs.all more

/-- A check of an argument: the value, or the text of the `ValueError`. -/
abbrev Checked := Except Text

def validate_name (name : Text) : Checked Text :=
  if spelled (fun c => isAlpha c || isDigit c) (fun c => isAlpha c || isDigit c || c = '.' || c = '_' || c = '-') name
  then pure name
  else throw (lit "invalid secret name " ++ Text.repr name ++ lit ": use letters, digits, '.', '_' and '-'")

def validate_var (var : Text) : Checked Text :=
  if spelled (fun c => isAlpha c || c = '_') (fun c => isAlpha c || isDigit c || c = '_') var then pure var
  else throw (lit "invalid environment variable name " ++ Text.repr var)

def validate_meta_key (key : Text) : Checked Text :=
  if spelled (fun c => isAlpha c || isDigit c) (fun c => isAlpha c || isDigit c || c = '_' || c = '-') key
  then pure key
  else throw (lit "invalid metadata key " ++ Text.repr key ++ lit ": use letters, digits, '_' and '-', with no '.' or '='")

def validate_field (name : Text) (allowed : List Text := FIELDS) : Checked Text :=
  if allowed.contains name then pure name
  else if allowed = FIELDS && META_PREFIX.isPrefixOf name then do
    let _ ← validate_meta_key (name.drop META_PREFIX.length)
    pure name
  else
    throw (lit "unknown field " ++ Text.repr name ++ lit ": expected one of " ++ commaJoin allowed ++
      if allowed = FIELDS then lit " or " ++ META_PREFIX ++ lit "<key>" else [])

/-- `text.partition(sep)` for one character. -/
def partition (sep : Char) (text : Text) : Text × Bool × Text :=
  (text.takeWhile (· ≠ sep), List.contains text sep, (text.dropWhile (· ≠ sep)).drop 1)

/-- `key=value`, both stripped, neither empty. -/
def parse_pair (what : Text) (text : Text) : Checked (Text × Text) :=
  let (key, sep, value) := partition '=' text
  let (key, value) := (Text.strip key, Text.strip value)
  if !sep || key = [] || value = [] then
    throw (lit "invalid " ++ what ++ lit " " ++ Text.repr text ++ lit ": expected key=value")
  else pure (key, value)

def parse_tag (text : Text) : Checked Tag := parse_pair (lit "tag") text

def parse_meta (text : Text) : Checked (Text × Text) := do
  let (key, value) ← parse_pair (lit "metadata") text
  let key ← validate_meta_key key
  pure (key, value)

/-- Whether every wanted pair is among `tags`. -/
def matchesTags (tags wanted : List Tag) : Bool := wanted.all tags.contains

/-- `d[key] = value` -/
def setKey (key : Text) (value : Text) : List (Text × Text) → List (Text × Text)
  | [] => [(key, value)]
  | (k, v) :: d => if k = key then (k, value) :: d else (k, v) :: setKey key value d

/-- The order of tuples of two texts. -/
def pairLe (a b : Text × Text) : Bool := decide (a.1 < b.1) || a.1 = b.1 && decide (a.2 ≤ b.2)

def sortedPairs (pairs : List (Text × Text)) : List (Text × Text) := pairs.insertionSort fun a b => pairLe a b

def sortedTexts (texts : List Text) : List Text := texts.insertionSort (· ≤ ·)

def str (t : Text) : Value := .str t

/-- A key of an object and its value. -/
def entry (key : String) (x : Value) : Key × Value := (.str (lit key), x)

def orNone : Option Text → Value
  | some t => .str t
  | none => .none

def strings (texts : List Text) : Value := .list (texts.map .str)

def stringDict (pairs : List (Text × Text)) : Value := .dict (pairs.map fun kv => (.str kv.1, .str kv.2))

def Secret.to_dict (s : Secret) : Value :=
  .dict [entry "name" (str s.name), entry "username" (orNone s.username), entry "description" (orNone s.description),
    entry "var" (orNone s.var), entry "tags" (.list ((sortedPairs s.tags).map fun pair => strings [pair.1, pair.2])),
    entry "fields" (strings (sortedTexts s.fields)), entry "metadata" (stringDict (sortedPairs s.metadata))]

/-! ## Stores -/

/-- What a handler may raise. `refused` is an error of the browser, the device or the store, with
its text; `other` any other exception, with the name of its type. -/
inductive Raised where
  | request (message : Text)
  | refused (message : Text)
  | other (type : Text)

/-- A call that reads and changes a state and may raise. -/
abbrev Call (σ α : Type) := ExceptT Raised (StateM σ) α

structure StoreHealth where
  backend : Text
  reachable : Bool
  missing_items : List Text := []
  orphan_items : Option (List Text) := none
  interpreter : Option Text := none

/-- The contract of `SecretStore`. -/
structure SecretStore (σ : Type) where
  health : Call σ StoreHealth
  names : Call σ (List Text)
  get (name : Text) : Call σ (Option Secret)
  create (secret : Secret) : Call σ Unit
  set_value (name field value : Text) : Call σ Unit
  unset_value (name field : Text) : Call σ Unit
  remove (name : Text) : Call σ Unit
  value (name field : Text) : Call σ (Option Text)
  retag (name : Text) (tags : List Tag) : Call σ Unit
  set_metadata (name : Text) (metadata : List (Text × Text)) : Call σ Unit

/-! ## The keyring -/

/-- What a catalogue and a keyring, or Vault, do apart from keeping things: they may refuse a call
on the records, and one that reads, writes or deletes an account. -/
structure Backend (ε : Type) where
  catalogue (op : Text) : ε → Except Raised Unit × ε
  account (op account : Text) : ε → Except Raised Unit × ε
  accounts (held : List Text) : ε → Except Raised (Option (List Text)) × ε
  interpreter : Option Text
  authenticated : ε → Except Raised Bool × ε

/-- The records, the values by account, and the state of what they are kept with. -/
structure Shelf (ε : Type) where
  secrets : List Secret
  values : List (Text × Text)
  env : ε

section Keyring

variable {ε : Type} (B : Backend ε)

/-- The record called `name`. -/
def find (secrets : List Secret) (name : Text) : Option Secret := secrets.find? fun s => s.name = name

def put (secrets : List Secret) (secret : Secret) : List Secret :=
  secrets.filter (fun s => s.name ≠ secret.name) ++ [secret]

def drop (secrets : List Secret) (name : Text) : List Secret := secrets.filter fun s => s.name ≠ name

def accountOf (name field : Text) : Text := name ++ ['/'] ++ field

/-- A call of what the shelf is kept with. -/
def consult {α : Type} (f : ε → Except Raised α × ε) : Call (Shelf ε) α := fun shelf =>
  let (r, env) := f shelf.env
  (r, { shelf with env })

/-- What lies on the shelf. -/
def contents : Call (Shelf ε) (Shelf ε) := get

/-- `Catalogue._load` -/
def load : Call (Shelf ε) (List Secret) := do
  consult (B.catalogue (lit "load"))
  let shelf ← contents
  pure shelf.secrets

/-- `Catalogue.put` and `Catalogue.drop`: load, change, save. -/
def save (change : List Secret → List Secret) : Call (Shelf ε) Unit := do
  let secrets ← load B
  consult (B.catalogue (lit "save"))
  modify fun shelf => { shelf with secrets := change secrets }

def get_password (account : Text) : Call (Shelf ε) (Option Text) := do
  consult (B.account (lit "get") account)
  let shelf ← contents
  pure (shelf.values.lookup account)

def set_password (account value : Text) : Call (Shelf ε) Unit := do
  consult (B.account (lit "set") account)
  modify fun shelf => { shelf with values := setKey account value shelf.values }

/-- `KeyringStore._delete` -/
def delete_password (account : Text) : Call (Shelf ε) Unit := do
  consult (B.account (lit "delete") account)
  modify fun shelf => { shelf with values := shelf.values.filter fun kv => kv.1 ≠ account }

def KeyringStore.names : Call (Shelf ε) (List Text) := do
  let secrets ← load B
  pure (sortedTexts (secrets.map (·.name)))

def KeyringStore.get (name : Text) : Call (Shelf ε) (Option Secret) := do
  let secrets ← load B
  pure (find secrets name)

def KeyringStore.record (name : Text) : Call (Shelf ε) Secret := do
  match ← KeyringStore.get B name with
  | some secret => pure secret
  | none => throw (.refused (lit "no such secret: " ++ name))

def KeyringStore.health : Call (Shelf ε) StoreHealth := do
  let names ← KeyringStore.names B
  let (claimed, missing) ← names.foldlM (fun acc name => do
    match ← KeyringStore.get B name with
    | none => pure acc
    | some record =>
      (sortedTexts record.fields).foldlM (fun acc field => do
        let account := accountOf name field
        let value ← get_password B account
        pure (acc.1 ++ [account], if value.isNone then acc.2 ++ [account] else acc.2)) acc) ([], [])
  let shelf ← contents
  let held ← consult (B.accounts (shelf.values.map Prod.fst))
  pure ⟨lit "keyring", true, missing,
    held.map fun held => sortedTexts (held.dedup.filter fun account => !claimed.contains account), B.interpreter⟩

def KeyringStore.value (name field : Text) : Call (Shelf ε) (Option Text) :=
  if field = lit "username" then do
    let secret ← KeyringStore.get B name
    pure (secret.bind (·.username))
  else if META_PREFIX.isPrefixOf field then do
    let secret ← KeyringStore.get B name
    pure (secret.bind fun s => s.metadata.lookup (field.drop META_PREFIX.length))
  else get_password B (accountOf name field)

def keyringStore : SecretStore (Shelf ε) where
  health := KeyringStore.health B
  names := KeyringStore.names B
  get := KeyringStore.get B
  create secret := save B (put · { secret with fields := [] })
  set_value name field value := do
    let secret ← KeyringStore.record B name
    set_password B (accountOf name field) value
    save B (put · { secret with fields := (secret.fields ++ [field]).dedup })
  unset_value name field := do
    let secret ← KeyringStore.record B name
    delete_password B (accountOf name field)
    save B (put · { secret with fields := secret.fields.filter (· ≠ field) })
  remove name := do
    VALUE_FIELDS.forM fun field => delete_password B (accountOf name field)
    save B (drop · name)
  value := KeyringStore.value B
  retag name tags := do
    let secret ← KeyringStore.record B name
    save B (put · { secret with tags })
  set_metadata name metadata := do
    let secret ← KeyringStore.record B name
    save B (put · { secret with metadata })

end Keyring

/-! ## Vault -/

section Vault

variable {ε : Type} (B : Backend ε)

/-- `VaultStore._data` -/
def VaultStore.data (name : Text) : Call (Shelf ε) (List (Text × Text)) := do
  consult (B.account (lit "read") name)
  let shelf ← contents
  pure (VALUE_FIELDS.filterMap fun field => (shelf.values.lookup (accountOf name field)).map fun value => (field, value))

/-- `data.get(field) or None` -/
def datum (data : List (Text × Text)) (field : Text) : Option Text := (data.lookup field).filter (· ≠ [])

def VaultStore.get (name : Text) : Call (Shelf ε) (Option Secret) := do
  let secrets ← load B
  match find secrets name with
  | none => pure none
  | some secret =>
    let data ← VaultStore.data B name
    pure (some { secret with fields := VALUE_FIELDS.filter fun field => (datum data field).isSome })

def VaultStore.record (name : Text) : Call (Shelf ε) Secret := do
  match ← VaultStore.get B name with
  | some secret => pure secret
  | none => throw (.other (lit "VaultError"))

def VaultStore.value (name field : Text) : Call (Shelf ε) (Option Text) :=
  if field = lit "username" then do
    let secret ← VaultStore.get B name
    pure (secret.bind (·.username))
  else if META_PREFIX.isPrefixOf field then do
    let secret ← VaultStore.get B name
    pure (secret.bind fun s => s.metadata.lookup (field.drop META_PREFIX.length))
  else do
    let data ← VaultStore.data B name
    pure (datum data field)

def vaultStore : SecretStore (Shelf ε) where
  health := do
    let reachable ← consult B.authenticated
    pure { backend := lit "vault", reachable }
  names := KeyringStore.names B
  get := VaultStore.get B
  create secret := save B (put · secret)
  set_value name field value := do
    let _ ← VaultStore.data B name
    set_password B (accountOf name field) value
  unset_value name field := do
    let data ← VaultStore.data B name
    if (data.lookup field).isSome then delete_password B (accountOf name field)
  remove name := do
    VALUE_FIELDS.forM fun field => delete_password B (accountOf name field)
    save B (drop · name)
  value := VaultStore.value B
  retag name tags := do
    let secret ← VaultStore.record B name
    save B (put · { secret with tags })
  set_metadata name metadata := do
    let secret ← VaultStore.record B name
    save B (put · { secret with metadata })

end Vault

/-- Where the values lie. -/
inductive Route where
  | keyring
  | vault

def storeOf {ε : Type} (B : Backend ε) : Route → SecretStore (Shelf ε)
  | .keyring => keyringStore B
  | .vault => vaultStore B

end Stablemate.Saddlebag
