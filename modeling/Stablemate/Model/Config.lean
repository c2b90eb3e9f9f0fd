import Stablemate.Lib.Dict
import Stablemate.Model.Text

/-!
# The home config's migration (`stablemate_core/config.py`)

A v1 config has its models under `power.<tier>.<backend>` and `default.<backend>`, for all runs at
the top level and for one profile within it. A v2 profile names one CLI and has `powers.<tier>` and
`default` of its own.

* `Toml`, `Document`: a TOML tree, and one as the parser gives it, where no table has a key twice.
* `_migrate_v1_to_v2`: the two global loops over the profiles, then the rewrite of each profile.
* `_walk_migrations`: the steps from a version to the present one.
-/

namespace Stablemate.Config

/-- What `tomllib` reads. `other` stands for the kinds of value that no function here asks about. -/
inductive Toml
  | str (s : Text)
  | int (n : ℤ)
  | table (items : List (Text × Toml))
  | other (text : Text)

abbrev Table := List (Text × Toml)

/-- No table of the tree has a key twice. -/
inductive Toml.WF : Toml → Prop
  | str (s : Text) : WF (.str s)
  | int (n : ℤ) : WF (.int n)
  | other (text : Text) : WF (.other text)
  | table {items : Table} : (items.map Prod.fst).Nodup → (∀ kx ∈ items, WF kx.2) → WF (.table items)

/-- A tree as the parser gives it. -/
structure Document where
  tree : Table
  wf : Toml.WF (.table tree)

/-- The value, where it is a `dict`. -/
def Toml.dict? : Toml → Option Table
  | .table items => some items
  | _ => none

open Dict in
/-- `d.get(key)`, where it is a `dict`. -/
def child (d : Table) (key : Text) : Option Table := (get d key).bind Toml.dict?

def PROFILES_KEY : Text := "profiles".toList
def PROFILE_CLI_KEY : Text := "cli".toList
def PROFILE_POWERS_KEY : Text := "powers".toList
def PROFILE_DEFAULT_KEY : Text := "default".toList
def CLI_KEY : Text := "cli".toList
def CONFIG_VERSION_KEY : Text := "config_version".toList
def CONFIG_VERSION : ℕ := 2

def config_version_of (cfg : Table) : ℕ :=
  match Dict.get cfg CONFIG_VERSION_KEY with
  | some (.int raw) => if raw < 1 then 1 else raw.toNat
  | _ => 1

/-! ## The global tables -/

/-- What the loops over `power.items()` and `by_backend.items()` visit, in their order. -/
def powerItems (power : Table) : List (Text × Text × Table) :=
  (Dict.choose Toml.dict? power).flatMap fun (tier, by_backend) =>
    (Dict.choose Toml.dict? by_backend).map fun (backend, mapping) => (tier, backend, mapping)

/-- The entry that a value of the `default` table stands for. -/
def defaultEntry : Toml → Option Table
  | .table mapping => some mapping
  | .str mapping => if Text.strip mapping ≠ [] then some [("model".toList, .str (Text.strip mapping))] else none
  | _ => none

/-- The profile that `_ensure_cli_profile` gets or creates, from what stands under the name. -/
def ensured (found : Option Table) (cli : Text) : Table :=
  Dict.setdefault (found.getD [(PROFILE_CLI_KEY, .str cli)]) PROFILE_CLI_KEY (.str cli)

def _ensure_cli_profile (profiles : Table) (cli : Text) : Table := ensured (child profiles cli) cli

/-- The profile for a CLI is got or created, and changed in its place. -/
def onProfile (profiles : Table) (cli : Text) (change : Table → Table) : Table :=
  Dict.set profiles cli (.table (change (_ensure_cli_profile profiles cli)))

/-- `powers.setdefault(tier, mapping)` for many, where `powers` is the profile's, or a new one. -/
def filePowers (items : Table) (profile : Table) : Table :=
  Dict.set profile PROFILE_POWERS_KEY (.table (Dict.file ((child profile PROFILE_POWERS_KEY).getD []) items))

/-- The loop over the global `power` table. -/
def foldPower (power profiles : Table) : Table :=
  (powerItems power).foldl (fun profiles item =>
    onProfile profiles item.2.1 (filePowers [(item.1, .table item.2.2)])) profiles

/-- The loop over the global `default` table. -/
def foldDefault (default_table profiles : Table) : Table :=
  (Dict.choose defaultEntry default_table).foldl (fun profiles item =>
    onProfile profiles item.1 fun profile => Dict.setdefault profile PROFILE_DEFAULT_KEY (.table item.2)) profiles

/-! ## The profiles -/

def _profile_cli (profile : Table) : Option Text :=
  match Dict.get profile PROFILE_CLI_KEY with
  | some (.str raw) => if Text.strip raw = [] then none else some (Text.lower (Text.strip raw))
  | _ => none

/-- The CLI that a v1 profile names. -/
def legacyCli (profile : Table) : Option Text :=
  match Dict.get profile "default_cli".toList with
  | some (.str legacy) => if Text.strip legacy = [] then none else some (Text.lower (Text.strip legacy))
  | _ => none

/-- The first block of the loop over the profiles: `default_cli` becomes `cli`. -/
def renameCli (name : Text) (profile : Table) : Except Text Table :=
  if (Dict.get profile PROFILE_CLI_KEY).isSome then .ok (Dict.pop profile "default_cli".toList)
  else match legacyCli profile with
    | some cli => .ok (Dict.set (Dict.pop profile "default_cli".toList) PROFILE_CLI_KEY (.str cli))
    | none => .error ("[profiles.".toList ++ name ++ "] has no cli field and no legacy default_cli — ".toList ++
        "cannot migrate to schema v2. Add cli = \"<one of the configured CLIs>\" to ".toList ++ Text.repr name ++ ['.'])

/-- The second block: the tiers of the profile's own `power` table, whatever their backend. -/
def nestedPower (profile : Table) : Table :=
  match child profile "power".toList with
  | some power =>
    filePowers ((powerItems power).map fun item => (item.1, .table item.2.2)) (Dict.pop profile "power".toList)
  | none => Dict.pop profile "power".toList

/-- The keys that a mapping to a model has. -/
def MAPPING_KEYS : List Text := ["model".toList, "effort".toList, "timeout_scale".toList]

/-- The third block: what the profile's own `default` table leaves, or nothing. -/
def nestedEntry (profile nested : Table) : Option Table :=
  match _profile_cli profile with
  | some cli => if nested.any (fun kx => kx.1 ∉ MAPPING_KEYS) then child nested cli else some nested
  | none => some nested

def nestedDefault (profile : Table) : Table :=
  match child profile PROFILE_DEFAULT_KEY with
  | some nested =>
    match nestedEntry profile nested with
    | some entry => Dict.setdefault (Dict.pop profile PROFILE_DEFAULT_KEY) PROFILE_DEFAULT_KEY (.table entry)
    | none => Dict.pop profile PROFILE_DEFAULT_KEY
  | none => Dict.pop profile PROFILE_DEFAULT_KEY

/-- The body of the loop over the profiles. -/
def migrateProfile (name : Text) : Toml → Except Text Toml
  | .table profile => (renameCli name profile).map fun profile => .table (nestedDefault (nestedPower profile))
  | value => .ok value

/-- The check of `_reject_duplicate_cli`, with the names `seen` before. -/
def rejectDuplicates : List Text → Table → Except Text Unit
  | _, [] => .ok ()
  | seen, (name, profile) :: profiles =>
    if (profile.dict?.bind _profile_cli) = some name then
      if name ∈ seen then
        .error ("[profiles.".toList ++ name ++ "] and [profiles.".toList ++ name ++
          "] both claim to be the auto-default for cli = ".toList ++ Text.repr name ++
          "; a config may have at most one CLI-named profile per CLI.".toList)
      else rejectDuplicates (name :: seen) profiles
    else rejectDuplicates seen profiles

def _reject_duplicate_cli (profiles : Table) : Except Text Unit := rejectDuplicates [] profiles

/-! ## The migration -/

/-- The profiles after the two global loops. -/
def folded (cfg : Table) : Table :=
  foldDefault ((child cfg "default".toList).getD [])
    (foldPower ((child cfg "power".toList).getD []) ((child cfg PROFILES_KEY).getD []))

/-- The tree after `harness` has become `cli`. -/
def renameHarness (data : Table) : Table :=
  match child data "harness".toList with
  | some harness => Dict.set (Dict.pop data "harness".toList) CLI_KEY (.table harness)
  | none => Dict.pop data "harness".toList

/-- `_migrate_v1_to_v2`, once its profiles are rewritten. -/
def assemble (cfg profiles : Table) : Table :=
  let data := Dict.set cfg PROFILES_KEY (.table profiles)
  let data := renameHarness (Dict.pop (Dict.pop data "power".toList) "default".toList)
  Dict.set data CONFIG_VERSION_KEY (.int CONFIG_VERSION)

def migrateItem (item : Text × Toml) : Except Text (Text × Toml) :=
  (migrateProfile item.1 item.2).map fun profile => (item.1, profile)

def _migrate_v1_to_v2 (cfg : Table) : Except Text Table := do
  let profiles ← (folded cfg).mapM migrateItem
  _reject_duplicate_cli profiles
  return assemble cfg profiles

def _MIGRATIONS (version : ℕ) : Option (Table → Except Text Table) :=
  if version = 1 then some _migrate_v1_to_v2 else none

/-- The body of the loop of `_walk_migrations`. -/
def migrationStep (data : Table) (version : ℕ) : Except Text Table :=
  match _MIGRATIONS version with
  | some step => step data
  | none => .error ("no migration registered from config schema v".toList ++ Nat.toDigits 10 version ++ " to v".toList ++
      Nat.toDigits 10 (version + 1) ++ "; cannot carry forward safely.".toList)

def _walk_migrations (cfg : Table) (from_version : ℕ) : Except Text Table :=
  (List.range' from_version (CONFIG_VERSION - from_version)).foldlM migrationStep cfg

end Stablemate.Config
