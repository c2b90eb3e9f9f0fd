import Stablemate.Model.Redact
import Stablemate.Model.Shelf

/-!
# The counter (`saddlebag/verbs.py`, `totp.py`, `redact.py`, `shapes.py`, `browser.py`, `device.py`)

Every verb handler over one store. `Doors` is what is injected: the browser's page, the device's
screen and keyboard, the clock and HMAC-SHA-1. A handler reads and changes a `Bag`: what the store
keeps, the state of what is injected, and the log.
-/

namespace Stablemate.Saddlebag

open PyJson (Value Key Entries)

/-! ## One-time passwords -/

def PERIOD_SECONDS : ℕ := 30

def DIGITS : ℕ := 6

def b32Digit (c : Char) : Option ℕ :=
  if 'A' ≤ c ∧ c ≤ 'Z' then some (c.toNat - 65)
  else if '2' ≤ c ∧ c ≤ '7' then some (c.toNat - 24)
  else none

/-- `n.to_bytes(5, "big")` -/
def fiveBytes (n : ℕ) : List ℕ := [n / 2 ^ 32 % 256, n / 2 ^ 24 % 256, n / 2 ^ 16 % 256, n / 2 ^ 8 % 256, n % 256]

/-- The groups of eight that a list of digits is read in. -/
def eights : ℕ → List ℕ → List (List ℕ)
  | 0, _ => []
  | _, [] => []
  | n + 1, digits => digits.take 8 :: eights n (digits.drop 8)

/-- `base64.b32decode` of a text whose length is a multiple of eight. -/
def b32decode (padded : Text) : Checked (List ℕ) := do
  if !padded.all (fun c => c.toNat < 128) then throw (lit "string argument should contain only ASCII characters")
  let body := (padded.reverse.dropWhile (· = '=')).reverse
  let padchars := padded.length - body.length
  let digits ← (body.mapM b32Digit).elim (throw (lit "Non-base32 digit found")) pure
  if !(List.contains [0, 1, 3, 4, 6] padchars) then throw (lit "Incorrect padding")
  let quanta := (eights digits.length digits).map fun q => q.foldl (fun acc d => acc * 32 + d) 0
  let decoded := quanta.flatMap fiveBytes
  if padchars = 0 || decoded = [] then pure decoded
  else
    let last := fiveBytes (quanta.getLastD 0 * 32 ^ padchars)
    pure (decoded.take (decoded.length - 5) ++ last.take ((43 - 5 * padchars) / 8))

/-- `decode_seed`, or the text of the `SeedError`. -/
def decode_seed (seed : Text) : Checked (List ℕ) :=
  let normalised := Text.upper ((Text.strip seed).filter fun c => c ≠ ' ' && c ≠ '-')
  if normalised = [] then throw (lit "the stored seed is empty")
  else
    match b32decode (normalised ++ List.replicate ((8 - normalised.length % 8) % 8) '=') with
    | .ok bytes => pure bytes
    | .error message => throw (lit "the stored seed is not valid base32: " ++ message)

/-- `str(n).zfill(digits)` -/
def zfill (digits n : ℕ) : Text :=
  let text := Nat.toDigits 10 n
  List.replicate (digits - text.length) '0' ++ text

/-- The code of a decoded seed at a time in milliseconds. -/
def codeAt (hmac : List ℕ → List ℕ → List ℕ) (key : List ℕ) (time : ℕ) : Text :=
  let counter := time / (PERIOD_SECONDS * 1000)
  let digest := hmac key ([7, 6, 5, 4, 3, 2, 1, 0].map fun i => counter / 256 ^ i % 256)
  let offset := digest.getLastD 0 % 16
  let truncated := ((digest.drop offset).take 4).foldl (fun acc b => acc * 256 + b) 0
  zfill DIGITS (truncated % 2 ^ 31 % 10 ^ DIGITS)

/-! ## The forms of a value -/

def MIN_LENGTH : ℕ := 8

/-- One byte of `quote(value, safe=" ")`. -/
def quoteSpacedByte (b : ℕ) : Text := if b = 32 then [' '] else Redact.quoteByte b

/-- `quote_plus(value, safe="")` -/
def quote_plus (value : Text) : Text := Text.replace [' '] ['+'] ((Text.utf8 value).flatMap quoteSpacedByte)

/-- One character inside a JSON string, as `json.dumps` writes it with `ensure_ascii=False`. -/
def jsonRawChar (c : Char) : Text := if c.toNat < 32 || c = '"' || c = '\\' then Text.jsonChar c else [c]

/-- `value` as written, and as compose, a URL and a JSON string escape it. -/
def forms (value : Text) : List Text :=
  [value, Text.replace ['$'] ['$', '$'] value, Redact.quote value, quote_plus value, Text.jsonEscaped value,
    value.flatMap jsonRawChar]

/-! ## Shapes -/

def KEY_WORDS : List Text :=
  ["PASSWORD", "PASSWD", "PASS", "SECRET", "TOKEN", "APIKEY", "PRIVATE", "CREDENTIAL", "CREDENTIALS", "AUTH", "DSN"].map lit

def KEY_PHRASES : List Text := ["API_KEY", "PRIVATE_KEY", "CLIENT_SECRET", "ACCESS_KEY", "SECRET_KEY"].map lit

def TOKEN_PREFIXES : List Text := ["sk-", "ghp_", "github_pat_", "hvs.", "AKIA"].map lit

def key_name (key : Text) : Bool :=
  let upper := Text.upper key
  if Text.contains (lit "PUBLIC") upper || (lit "_PUBLIC_KEY").isSuffixOf upper then false
  else if (upper.splitOn '_').any KEY_WORDS.contains then true
  else KEY_PHRASES.any fun phrase => Text.contains (['_'] ++ phrase ++ ['_']) (['_'] ++ upper ++ ['_'])

def token_shape (value : Text) : Bool :=
  if value.length < MIN_LENGTH then false
  else TOKEN_PREFIXES.any (·.isPrefixOf value) ||
    ['a', 'b', 'p', 'r', 's'].any (fun c => (lit "xox" ++ [c, '-']).isPrefixOf value) ||
    (lit "glpat-").isPrefixOf value || (lit "-----BEGIN ").isPrefixOf value

/-- `^[A-Za-z][A-Za-z0-9+.-]*://[^/@\s:]+:[^/@\s]+@` -/
def url_userinfo (value : Text) : Bool :=
  let scheme := value.takeWhile fun c => isAlpha c || isDigit c || c = '+' || c = '.' || c = '-'
  let rest := value.drop scheme.length
  let user := (rest.drop 3).takeWhile fun c => c ≠ '/' && c ≠ '@' && !Text.isSpace c && c ≠ ':'
  let tail := (rest.drop 3).drop user.length
  let password := (tail.drop 1).takeWhile fun c => c ≠ '/' && c ≠ '@' && !Text.isSpace c
  scheme.head?.any isAlpha && (lit "://").isPrefixOf rest && user ≠ [] && tail.head? = some ':' &&
    password ≠ [] && (tail.drop (1 + password.length)).head? = some '@'

def RULES : List (Text × (Text → Text → Bool)) :=
  [(lit "key-name", fun key _ => key_name key), (lit "token-shape", fun _ value => token_shape value),
    (lit "url-userinfo", fun _ value => url_userinfo value)]

/-! ## What is injected -/

structure Target where
  id : Text
  url : Text
  title : Text
  websocket_url : Text

/-- What the page says of the element that is to be filled. -/
structure Focus where
  found : Bool
  editable : Bool
  tag : Text

structure FocusedField where
  package : Text
  resource_id : Text
  is_password : Bool
  length : ℕ

/-- The browser, the device and the clock, each answering from a state of its own that it changes. -/
structure Doors (σ : Type) where
  version : Text
  vault_token_file : Bool
  list_targets (endpoint : Text) : σ → Except Raised (List Target) × σ
  open_session (websocket_url : Text) : σ → Except Raised Unit × σ
  focus (selector : Text) : σ → Except Raised (Option Focus) × σ
  insert_text (value : Text) : σ → Except Raised Unit × σ
  read_length (selector : Text) : σ → Except Raised (Option ℤ) × σ
  close_session : σ → Except Raised Unit × σ
  connect (serial : Option Text) : σ → Except Raised Text × σ
  focused_field : σ → Except Raised (Option FocusedField) × σ
  type_text (value : Text) : σ → Except Raised Unit × σ
  /-- The time in milliseconds. -/
  time : σ → ℕ × σ
  sleep (seconds : ℕ) : σ → σ
  hmac : List ℕ → List ℕ → List ℕ

/-- What a handler reads and changes. -/
structure Bag (τ σ : Type) where
  shelf : τ
  world : σ
  log : List Text

abbrev Run (τ σ α : Type) := ExceptT Raised (StateM (Bag τ σ)) α

section Verbs

variable {τ σ : Type} (store : SecretStore τ) (doors : Doors σ)

/-- A call of the store. -/
def onShelf {α : Type} (c : Call τ α) : Run τ σ α := fun bag =>
  let (r, shelf) := c.run.run bag.shelf
  (r, { bag with shelf })

/-- A call of what is injected. -/
def door {α : Type} (f : σ → Except Raised α × σ) : Run τ σ α := fun bag =>
  let (r, world) := f bag.world
  (r, { bag with world })

def logLine (line : Text) : Run τ σ Unit := modify fun bag => { bag with log := bag.log ++ [line] }

def request {α : Type} (message : Text) : Run τ σ α := throw (.request message)

def browserError {α : Type} (message : Text) : Run τ σ α := throw (.refused message)

def deviceError {α : Type} (message : Text) : Run τ σ α := throw (.refused message)

/-! ## Arguments -/

/-- `args.get(key)` -/
def argument (args : Entries) (key : Text) : Value := (args.lookup (.str key)).getD .none

/-- `bool(value)` -/
def truthy : Value → Bool
  | .none => false
  | .bool b => b
  | .int i => i ≠ 0
  | .float (.fin x _) => x ≠ 0
  | .str s => s ≠ []
  | .list xs => !xs.isEmpty
  | .tuple xs => !xs.isEmpty
  | .dict kvs => !kvs.isEmpty
  | _ => true

def isNone : Value → Bool
  | .none => true
  | _ => false

def strOf : Value → Option Text
  | .str s => some s
  | _ => none

def _text (args : Entries) (key : Text) (required : Bool := true) : Run τ σ (Option Text) :=
  let value := argument args key
  if isNone value then if required then request (lit "missing argument " ++ Text.repr key) else pure none
  else
    match strOf value with
    | some s => pure (some s)
    | none => request (lit "argument " ++ Text.repr key ++ lit " must be a string")

def _required (args : Entries) (key : Text) : Run τ σ Text := do
  match ← _text args key with
  | some value => pure value
  | none => throw (.other (lit "AssertionError"))

/-- A list of texts, or what `_tags` and `_metadata` say of anything else. -/
def textsOf : Value → Option (List Text)
  | .list xs => xs.mapM strOf
  | _ => none

def listed (args : Entries) (key : Text) (expected : Text) : Run τ σ (List Text) :=
  let raw := argument args key
  if truthy raw then
    match textsOf raw with
    | some texts => pure texts
    | none => request (lit "argument " ++ Text.repr key ++ lit " must be a list of " ++ expected)
  else pure []

def _checked {α : Type} (r : Checked α) : Run τ σ α :=
  match r with
  | .ok value => pure value
  | .error message => request message

def _tags (args : Entries) (key : Text := lit "tags") : Run τ σ (List Tag) := do
  let texts ← listed args key (lit "key=value strings")
  let pairs ← _checked (texts.mapM parse_tag)
  pure pairs.dedup

def _metadata (args : Entries) (key : Text := lit "metadata") : Run τ σ (List (Text × Text)) := do
  let texts ← listed args key (lit "key=value strings")
  texts.foldlM (fun pairs item => do
    let (name, value) ← _checked (parse_meta item)
    if (pairs.map Prod.fst).contains name then request (lit "metadata " ++ name ++ lit " is given twice")
    pure (pairs ++ [(name, value)])) []

/-! ## Handlers -/

def _existing (args : Entries) : Run τ σ Secret := do
  let name ← _required args (lit "name")
  match ← onShelf (store.get name) with
  | some secret => pure secret
  | none => request (lit "no such secret: " ++ name)

def _matching (tags : List Tag) : Run τ σ (List Secret) := do
  let names ← onShelf store.names
  let found ← names.mapM fun name => onShelf (store.get name)
  pure (found.reduceOption.filter fun secret => matchesTags secret.tags tags)

def verb_ping (_args : Entries) : Run τ σ Entries := pure [entry "version" (str doors.version)]

def verb_list (args : Entries) : Run τ σ Entries := do
  let tags ← _tags args
  let secrets ← _matching store tags
  pure [entry "secrets" (.list (secrets.map Secret.to_dict))]

def verb_tags (args : Entries) : Run τ σ Entries := do
  let tags ← _tags args
  let secrets ← _matching store tags
  let pairs := (secrets.flatMap (·.tags)).dedup
  pure [entry "tags" (.list ((sortedPairs pairs).map fun pair => strings [pair.1, pair.2]))]

def verb_create (args : Entries) : Run τ σ Entries := do
  let name ← _required args (lit "name")
  let name ← _checked (validate_name name)
  if (← onShelf (store.get name)).isSome then request (lit "secret " ++ name ++ lit " already exists")
  let var ← _text args (lit "var") false
  let username ← _text args (lit "username") false
  let description ← _text args (lit "description") false
  let var ← _checked (var.mapM validate_var)
  let tags ← _tags args
  let metadata ← _metadata args
  let secret : Secret := { name, username, description, var, tags, metadata }
  onShelf (store.create secret)
  pure [entry "secret" secret.to_dict]

def verb_set (args : Entries) : Run τ σ Entries := do
  let secret ← _existing store args
  let field ← _required args (lit "field")
  let field ← _checked (validate_field field VALUE_FIELDS)
  let value ← _required args (lit "value")
  if value = [] then request (lit "the value is empty")
  if field = lit "totp" then
    let _ ← _checked (decode_seed value)
  onShelf (store.set_value secret.name field value)
  pure [entry "name" (str secret.name), entry "field" (str field), entry "characters" (.int value.length)]

def verb_unset (args : Entries) : Run τ σ Entries := do
  let secret ← _existing store args
  let field ← _required args (lit "field")
  let field ← _checked (validate_field field VALUE_FIELDS)
  onShelf (store.unset_value secret.name field)
  pure [entry "name" (str secret.name), entry "field" (str field)]

def verb_remove (args : Entries) : Run τ σ Entries := do
  let secret ← _existing store args
  onShelf (store.remove secret.name)
  pure [entry "name" (str secret.name)]

def verb_tag (args : Entries) : Run τ σ Entries := do
  let secret ← _existing store args
  let tags ← _tags args
  onShelf (store.retag secret.name (secret.tags ++ tags).dedup)
  pure [entry "name" (str secret.name)]

def verb_untag (args : Entries) : Run τ σ Entries := do
  let secret ← _existing store args
  let tags ← _tags args
  onShelf (store.retag secret.name (secret.tags.filter fun tag => !tags.contains tag))
  pure [entry "name" (str secret.name)]

/-- The reply of `meta` and `unmeta`. -/
def metaReply (name : Text) (metadata : List (Text × Text)) : Entries :=
  [entry "name" (str name), entry "metadata" (stringDict (sortedPairs metadata))]

def verb_meta (args : Entries) : Run τ σ Entries := do
  let secret ← _existing store args
  let given ← _metadata args
  let merged := given.foldl (fun d kv => setKey kv.1 kv.2 d) secret.metadata
  onShelf (store.set_metadata secret.name merged)
  pure (metaReply secret.name merged)

def verb_unmeta (args : Entries) : Run τ σ Entries := do
  let secret ← _existing store args
  let raw := argument args (lit "keys")
  let keys ← if truthy raw then
    match textsOf raw with
    | some keys => pure keys
    | none => request (lit "argument 'keys' must be a list of strings")
  else pure []
  let remaining ← keys.foldlM (fun (remaining : List (Text × Text)) key => do
    let _ ← _checked (validate_meta_key key)
    if !(remaining.map Prod.fst).contains key then
      request (secret.name ++ lit " has no metadata " ++ key)
    pure (remaining.filter fun kv => kv.1 ≠ key)) secret.metadata
  onShelf (store.set_metadata secret.name remaining)
  pure (metaReply secret.name remaining)

def _value (secret : Secret) (field : Text) : Run τ σ Text := do
  match ← onShelf (store.value secret.name field) with
  | some value => pure value
  | none =>
    let hint := if VALUE_FIELDS.contains field then
      lit " Store one with: saddlebag secret set " ++ secret.name ++ lit " --field " ++ field
    else if META_PREFIX.isPrefixOf field then
      lit " Set one with: saddlebag secret meta " ++ secret.name ++ lit " " ++ field.drop META_PREFIX.length ++ lit "=..."
    else []
    request (secret.name ++ lit " has no " ++ field ++ lit "." ++ hint)

/-- `totp.seconds_remaining()` -/
def seconds_remaining : Run τ σ ℕ := do
  let time ← door fun s => let (t, s) := doors.time s; (.ok t, s)
  pure ((PERIOD_SECONDS * 1000 - time % (PERIOD_SECONDS * 1000)) / 1000)

/-- `totp.code(seed)`, a `SeedError` as its text. -/
def code (seed : Text) : Run τ σ (Checked Text) := do
  let time ← door fun s => let (t, s) := doors.time s; (.ok t, s)
  pure ((decode_seed seed).map fun key => codeAt doors.hmac key time)

/-- `args.get("min_seconds", 5)`, if it is an integer. -/
def minSeconds (args : Entries) : Option ℤ :=
  match args.lookup (.str (lit "min_seconds")) with
  | none => some 5
  | some (.int i) => some i
  | some (.bool b) => some (if b then 1 else 0)
  | some _ => none

/-- The current code of a seed, and for how long it is valid. -/
def typableCode (secret : Secret) (seed : Text) (remaining : ℕ) : Run τ σ (Text × Entries) := do
  match ← code doors seed with
  | .ok code => pure (code, [entry "valid_for_seconds" (.int remaining)])
  | .error message => request (secret.name ++ lit ": " ++ message)

def _typable (secret : Secret) (field : Text) (args : Entries) : Run τ σ (Text × Entries) := do
  let value ← _value store secret field
  if field ≠ lit "totp" then pure (value, [])
  else
    match minSeconds args with
    | none => request (lit "argument 'min_seconds' must be an integer")
    | some minimum =>
      let remaining ← seconds_remaining doors
      let remaining ← if (remaining : ℤ) < minimum then do
        door fun s => (.ok (), doors.sleep remaining s)
        seconds_remaining doors
      else pure remaining
      typableCode doors secret value remaining

/-- `browser.select_target` -/
def select_target (targets : List Target) (url_contains : Option Text) : Run τ σ Target :=
  let listing := fun (ts : List Target) => ['\n'].intercalate (ts.map fun t => lit "  - " ++ t.url)
  let shown := (url_contains.map Text.repr).getD (lit "None")
  let found := match url_contains with
    | none => targets
    | some part => targets.filter fun t => Text.contains part t.url
  match targets, found with
  | [], _ => browserError (lit "the browser has no inspectable pages open")
  | _, [] => browserError (lit "no open page's URL contains " ++ shown ++ lit ". Open pages:\n" ++ listing targets)
  | _, [target] => pure target
  | _, _ => browserError (Nat.toDigits 10 found.length ++ lit " pages match " ++ shown ++
      lit "; narrow it so the target is unambiguous:\n" ++ listing found)

/-- `browser.fill` -/
def fill (selector value : Text) : Run τ σ ℤ := do
  match ← door (doors.focus selector) with
  | none => browserError (lit "no element matches " ++ Text.repr selector ++ lit " on that page")
  | some focus =>
    if !focus.found then browserError (lit "no element matches " ++ Text.repr selector ++ lit " on that page")
    if !focus.editable then
      browserError (Text.repr selector ++ lit " matches a <" ++ Text.lower focus.tag ++
        lit ">, which cannot hold typed text; name the input itself")
    door (doors.insert_text value)
    let length ← door (doors.read_length selector)
    match length.filter (0 < ·) with
    | none =>
      browserError (Text.repr selector ++ lit (" is still empty after the insert — the field is probably " ++
        "read-only, or the page replaced it while it was being filled"))
    | some length =>
      if length ≠ value.length then
        logLine (selector ++ lit " holds " ++ PyJson.decimal length ++ lit " characters after inserting " ++
          PyJson.decimal value.length ++ lit " — the field may be masked, truncating or reformatting")
      pure length

def verb_fill (browser_endpoint : Text) (args : Entries) : Run τ σ Entries := do
  let secret ← _existing store args
  let field ← _required args (lit "field")
  let field ← _checked (validate_field field)
  let selector ← _required args (lit "selector")
  let (value, detail) ← _typable store doors secret field args
  let endpoint ← _text args (lit "cdp") false
  let endpoint := match endpoint with
    | some e => if e = [] then browser_endpoint else e
    | none => browser_endpoint
  let targets ← door (doors.list_targets endpoint)
  let url_contains ← _text args (lit "url_contains") false
  let target ← select_target targets url_contains
  door (doors.open_session target.websocket_url)
  let length ← tryCatchThe Raised (fill doors selector value) fun e => do
    door doors.close_session
    throw e
  door doors.close_session
  pure ([entry "name" (str secret.name), entry "field" (str field), entry "selector" (str selector),
    entry "characters" (.int length), entry "url" (str target.url)] ++ detail)

/-- `device.can_type` -/
def can_type (value : Text) : Bool :=
  !Text.contains (lit "%s") value && value.all fun c => ' ' ≤ c && c ≤ '~'

/-- `device.type_value` -/
def type_value (value : Text) (password : Bool) : Run τ σ FocusedField := do
  if !can_type value then
    deviceError (lit ("the value holds something the device's input command would drop or change: " ++
      "a character outside printable ASCII, or a percent sign followed by s. Nothing was typed."))
  match ← door doors.focused_field with
  | none => deviceError (lit ("no editable field has focus. Tap the field first, for example with Maestro, " ++
      "then retry."))
  | some before =>
    if password && !before.is_password then
      deviceError (lit "the focused field " ++ (if before.resource_id = [] then lit "(no id)" else before.resource_id) ++
        lit " in " ++ before.package ++ lit (" is not a password field. A password typed there shows on screen " ++
          "and in every screen read. Nothing was typed."))
    door (doors.type_text value)
    match ← door doors.focused_field with
    | none => deviceError (lit ("the focus moved while typing, so the value may have reached another field. " ++
        "Check the screen before you retry."))
    | some after =>
      if after.package ≠ before.package || after.resource_id ≠ before.resource_id then
        deviceError (lit ("the focus moved while typing, so the value may have reached another field. " ++
          "Check the screen before you retry."))
      if after.length ≠ value.length then
        deviceError (lit "the field holds " ++ PyJson.decimal after.length ++ lit " characters after typing " ++
          PyJson.decimal value.length ++ lit (". It held text already, or it dropped or changed characters. " ++
            "Clear it before you retry."))
      pure after

def verb_type (args : Entries) : Run τ σ Entries := do
  let secret ← _existing store args
  let field ← _required args (lit "field")
  let field ← _checked (validate_field field)
  let (value, detail) ← _typable store doors secret field args
  let wanted ← _text args (lit "device") false
  let serial ← door (doors.connect wanted)
  let typed ← type_value doors value (field = lit "password")
  pure ([entry "name" (str secret.name), entry "field" (str field), entry "device" (str serial),
    entry "characters" (.int typed.length), entry "package" (str typed.package),
    entry "resource_id" (str typed.resource_id)] ++ detail)

/-- What `env` does with one secret that the tags match: the values and the owners of their variables. -/
def fillTagged (acc : List (Text × Text) × List (Text × Text)) (secret : Secret) :
    Run τ σ (List (Text × Text) × List (Text × Text)) :=
  match secret.var with
  | none => request (secret.name ++ lit " matches the tags but has no var to fill")
  | some var =>
    match acc.2.lookup var with
    | some owner => request (owner ++ lit " and " ++ secret.name ++ lit " both fill " ++ var)
    | none => do
      let value ← _value store secret (lit "password")
      pure (setKey var value acc.1, acc.2 ++ [(var, secret.name)])

/-- The part of `env` that the tags fill. -/
def tagValues (tags : List Tag) : Run τ σ (List (Text × Text)) := do
  if tags = [] then pure []
  else
    let matched ← _matching store tags
    if matched.isEmpty then request (lit "no secret carries all of those tags")
    let (values, _) ← matched.foldlM (fillTagged store) ([], [])
    pure values

/-- `_text(binding, "field", required=False) or "password"` -/
def fieldOr (field : Option Text) : Text :=
  match field with
  | some f => if f = [] then lit "password" else f
  | none => lit "password"

/-- One binding of `env`. -/
def bind (values : List (Text × Text)) : Value → Run τ σ (List (Text × Text))
  | .dict binding => do
    let var ← _required binding (lit "var")
    let var ← _checked (validate_var var)
    let secret ← _existing store binding
    let field ← _text binding (lit "field") false
    let field ← _checked (validate_field (fieldOr field))
    let value ← _value store secret field
    pure (setKey var value values)
  | _ => request (lit "each binding must be an object")

/-- What `env` puts into an environment. -/
def envValues (args : Entries) : Run τ σ (List (Text × Text)) := do
  let tags ← _tags args
  let values ← tagValues store tags
  let raw := argument args (lit "bindings")
  let bindings ← if truthy raw then
    match raw with
    | .list xs => pure xs
    | _ => request (lit "argument 'bindings' must be a list")
  else pure []
  bindings.foldlM (bind store) values

def verb_env (args : Entries) : Run τ σ Entries := do
  let values ← envValues store args
  pure [entry "values" (stringDict values)]

/-- The forms of what is stored in a field. -/
def storedForms (secret : Secret) (field : Text) : Run τ σ (List Text) := do
  let stored ← onShelf (store.value secret.name field)
  let value := stored.getD []
  pure (if value = [] then [] else forms value)

def _held_forms : Run τ σ (List Text) := do
  let secrets ← _matching store []
  let held ← secrets.mapM fun secret => VALUE_FIELDS.mapM (storedForms store secret)
  pure held.flatten.flatten

/-- One entry of `classify`. -/
def pairOf : Value → Run τ σ (Text × Text)
  | .dict e => do
    let key ← _required e (lit "key")
    let value ← _text e (lit "value") false
    pure (key, value.getD [])
  | _ => request (lit "each entry must be an object")

/-- The verdict on one entry. -/
def verdict (held : List Text) (registered : List Text) (pair : Text × Text) : Value :=
  let rule : Option Text :=
    if pair.2 ≠ [] && held.contains pair.2 then some (lit "held-value")
    else if registered.contains pair.1 then some (lit "registered-var")
    else (RULES.find? fun rule => rule.2 pair.1 pair.2).map Prod.fst
  .dict [entry "key" (str pair.1), entry "secret" (.bool rule.isSome), entry "rule" (orNone rule)]

/-- The entries of a `classify` request. -/
def classifyPairs (args : Entries) : Run τ σ (List (Text × Text)) :=
  match argument args (lit "entries") with
  | .list entries => entries.mapM pairOf
  | _ => request (lit "argument 'entries' must be a list")

def verb_classify (args : Entries) : Run τ σ Entries := do
  let pairs ← classifyPairs args
  let secrets ← _matching store []
  let held ← _held_forms store
  let registered := (secrets.filterMap (·.var)).filter (· ≠ [])
  pure [entry "verdicts" (.list (pairs.map (verdict held registered)))]

/-- What `doctor` says of how the counter was reached. -/
structure Counter where
  browser_endpoint : Text
  route : Text
  token_source : Option Text

def verb_doctor (counter : Counter) (_args : Entries) : Run τ σ Entries := do
  let health ← onShelf store.health
  let bare ← if health.reachable then do
    let names ← onShelf store.names
    let secrets ← names.mapM fun name => onShelf (store.get name)
    pure ((secrets.reduceOption.filter (·.fields.isEmpty)).map (·.name))
  else pure []
  pure [entry "backend" (str health.backend), entry "route" (str counter.route), entry "version" (str doors.version),
    entry "store_reachable" (.bool health.reachable), entry "vault_authenticated" (.bool health.reachable),
    entry "secrets_without_value" (strings bare), entry "missing_items" (strings health.missing_items),
    entry "orphan_items" ((health.orphan_items.map strings).getD .none),
    entry "interpreter" (orNone health.interpreter), entry "token_source" (orNone counter.token_source),
    entry "vault_token_file" (.bool doors.vault_token_file)]

/-! ## The counter -/

structure Request where
  verb : Text
  args : Entries

structure Reply where
  ok : Bool
  result : Entries
  error : Option Text

def handlers (counter : Counter) : List (Text × (Entries → Run τ σ Entries)) :=
  [(lit "ping", verb_ping doors), (lit "list", verb_list store), (lit "tags", verb_tags store),
    (lit "create", verb_create store), (lit "set", verb_set store), (lit "unset", verb_unset store),
    (lit "remove", verb_remove store), (lit "tag", verb_tag store), (lit "untag", verb_untag store),
    (lit "meta", verb_meta store), (lit "unmeta", verb_unmeta store),
    (lit "fill", verb_fill store doors counter.browser_endpoint), (lit "type", verb_type store doors),
    (lit "env", verb_env store), (lit "classify", verb_classify store), (lit "doctor", verb_doctor store doors counter)]

/-- The reply to what a handler gives, or raises. -/
def replyTo (verb : Text) : Except Raised Entries → Reply × Option Text
  | .ok result => (⟨true, result, none⟩, none)
  | .error (.request message) => (⟨false, [], some message⟩, none)
  | .error (.refused message) => (⟨false, [], some message⟩, none)
  | .error (.other type) =>
    (⟨false, [], some (verb ++ lit " failed inside the daemon: " ++ type)⟩,
      some (lit "verb " ++ verb ++ lit " failed with " ++ type))

def handle (counter : Counter) (request : Request) (bag : Bag τ σ) : Reply × Bag τ σ :=
  match (handlers store doors counter).lookup request.verb with
  | none => (⟨false, [], some (lit "unknown verb " ++ Text.repr request.verb)⟩, bag)
  | some handler =>
    let (r, bag) := (handler request.args).run.run bag
    let (reply, line) := replyTo request.verb r
    (reply, { bag with log := bag.log ++ line.toList })

/-- The replies to requests that come one after another. -/
def serve (counter : Counter) : List Request → Bag τ σ → List Reply × Bag τ σ
  | [], bag => ([], bag)
  | request :: requests, bag =>
    let (reply, bag) := handle store doors counter request bag
    let (replies, bag) := serve counter requests bag
    (reply :: replies, bag)

end Verbs

end Stablemate.Saddlebag
