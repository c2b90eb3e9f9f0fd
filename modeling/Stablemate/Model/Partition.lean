import Stablemate.Lib.Dict
import Stablemate.Model.Changes
import Stablemate.Model.Gates
import Stablemate.Model.Json

/-!
# The partition of a survey (`surveyor/nodes/partition.py`, `survey/filing.py`, `ostler/register.py`)

* `validate_partition`: the gate, which reads clusters of any YAML type.
* `file_proposals`: a record for each proposal whose summary no open record of the survey has.
* `emit_artifacts`: the records of the clusters, and the manifest of the units.

A record is read as it was written. Where files are, and what is logged, is left out.
-/

namespace Stablemate.Survey

open PyJson (Key PyFloat decimal)

/-- What `yaml.safe_load` gives. -/
inductive Yaml
  | null
  | bool (b : Bool)
  | int (i : ℤ)
  | float (x : PyFloat)
  | str (s : Text)
  | time (shown : Text)
  | bytes (data : List ℕ)
  | list (xs : List Yaml)
  | dict (kvs : List (Key × Yaml))
  | set (keys : List Key)

abbrev Fields := List (Key × Yaml)

inductive Raised
  | attributeError
  | keyError
  | typeError
  | valueError
deriving DecidableEq

abbrev Answer := Except Raised

/-- What the nodes are run with. -/
structure World where
  /-- `str(x)` where `x` is none of what `World.text` knows. -/
  str : Yaml → Text
  strJson : Json → Text
  /-- `sorted` of clusters by order and id; nothing where two that are compared have no order. -/
  sorted : List ((Yaml × Text) × Fields) → Option (List ((Yaml × Text) × Fields))
  sorted_perm : ∀ rows ordered, sorted rows = some ordered → ordered.Perm rows
  /-- `surveyed_repo` -/
  repo : Text
  /-- The ids that `ids.allocate` mints, one after the other. -/
  mint : ℕ → Text
  /-- The ids that are used for anything but a record. -/
  taken : Text → Bool
  part_rel : Text := "docs/survey/partition.yaml".toList
  inv_rel : Text := "docs/survey/inventory.json".toList
  manifest_rel : Text := "docs/survey/unit-manifest.json".toList

section Survey

variable (W : World)

/-! ## Values -/

/-- `str(x)` -/
def World.text : Yaml → Text
  | .null => "None".toList
  | .bool b => if b then "True".toList else "False".toList
  | .int i => decimal i
  | .str s => s
  | .time shown => shown
  | x => W.str x

/-- `str(x)` of a JSON value -/
def World.textJson : Json → Text
  | .word .null => "None".toList
  | .str s => s
  | x => W.strJson x

/-- `bool(x)` -/
def truthy : Yaml → Bool
  | .null => false
  | .bool b => b
  | .int i => i ≠ 0
  | .float (.fin value _) => value ≠ 0
  | .float _ => true
  | .str s => s ≠ []
  | .time _ => true
  | .bytes data => !data.isEmpty
  | .list xs => !xs.isEmpty
  | .dict kvs => !kvs.isEmpty
  | .set keys => !keys.isEmpty

def hashable : Yaml → Bool
  | .list _ | .dict _ | .set _ => false
  | _ => true

/-- `c[key]` -/
def find (c : Fields) (key : String) : Option Yaml := c.lookup (.str key.toList)

/-- `c.get(key)` -/
def get (c : Fields) (key : String) : Yaml := (find c key).getD .null

/-- `str(c.get(key) or "")` -/
def World.orEmpty (c : Fields) (key : String) : Text := if truthy (get c key) then W.text (get c key) else []

/-- `str(c.get(key, ""))` -/
def World.orBlank (c : Fields) (key : String) : Text := ((find c key).map W.text).getD []

def Key.value : Key → Yaml
  | .str s => .str s
  | .int i => .int i
  | .bool b => .bool b
  | .float x => .float x
  | .none => .null
  | .other => .time []

/-- The items that a `for` takes. -/
def items : Yaml → Answer (List Yaml)
  | .list xs => pure xs
  | .str s => pure (s.map fun c => .str [c])
  | .bytes data => pure (data.map fun n => .int n)
  | .dict kvs => pure (kvs.map fun kx => Key.value kx.1)
  | .set keys => pure (keys.map Key.value)
  | _ => throw .typeError

def isSlugChar (c : Char) : Bool := ('a' ≤ c && c ≤ 'z') || ('0' ≤ c && c ≤ '9')

/-- `_SLUG_RE.match`, whose `$` stands in front of a newline at the end too. -/
def isSlug (text : Text) : Bool :=
  ((if text.getLast? = some '\n' then text.dropLast else text).splitOn '-').all fun part =>
    part ≠ [] && part.all isSlugChar

/-- `filing.segment` -/
def segment (value : Text) (fallback : Text := "general".toList) : Text :=
  let text := ['-'].intercalate (((Text.lower value).splitOnP fun c => !isSlugChar c).filter (· ≠ []))
  if text = [] then fallback else text

/-! ## Units -/

/-- A file that is read as text, and as what is in it. -/
inductive File
  | missing
  /-- It is no UTF-8, or a date in it is none. -/
  | raises
  | malformed (exc : Text)
  | value (part : Yaml)

/-- `_read_units` of an inventory that is read, or not. -/
def _read_units : Option Json → Answer (Option Json)
  | none => pure none
  | some (.obj kvs) =>
    let units := Json.get kvs "units".toList
    pure (some (if Json.truthy units then units else .arr []))
  | some _ => throw .attributeError

/-- The units that a `for` takes. -/
def unitItems : Json → Answer (List Json)
  | .arr xs => pure xs
  | .str s => pure (s.map fun c => .str [c])
  | .obj kvs => pure (kvs.map fun kx => .str kx.1)
  | .word _ => throw .typeError

/-- Those that are a dict. -/
def unitDicts (units : List Json) : List Json.Fields :=
  units.filterMap fun
    | .obj kvs => some kvs
    | _ => none

/-- `str(u.get("id"))` -/
def World.gateId (unit : Json.Fields) : Text := W.textJson (Json.get unit "id".toList)

/-- `str(u.get("id", ""))` -/
def World.entryId (unit : Json.Fields) : Text := ((unit.lookup "id".toList).map W.textJson).getD []

def isAssessed : Json → Bool
  | .str s => s = "assessed".toList
  | _ => false

def unit_status (units : List Json.Fields) : List (Text × Json) :=
  units.foldl (fun statuses unit => Dict.set statuses (W.gateId unit) (Json.get unit "status".toList)) []

/-! ## The gate -/

structure PartitionCheck where
  partition_ok : Bool := false
  partition_errors : Text := []
deriving DecidableEq

/-- A non-empty list of clusters. -/
def clustersOf : Yaml → Option (List Yaml)
  | .dict part =>
    match get part "clusters" with
    | .list (c :: cs) => some (c :: cs)
    | _ => none
  | _ => none

/-- What the loop over the clusters keeps. -/
structure Gate where
  errors : List Text := []
  seen_ids : List Text := []
  clustered_units : List Text := []

def STRATEGIES : List Text := ["mechanical".toList, "dedicated".toList]

/-- `clusters[i]` -/
def place (i : ℕ) : Text := "clusters[".toList ++ decimal i ++ "]".toList

/-- `clusters[i] (cid or '?')` -/
def named (i : ℕ) (cid : Text) : Text :=
  place i ++ " (".toList ++ (if cid = [] then "?".toList else cid) ++ ")".toList

def idErrors (i : ℕ) (seen_ids : List Text) (cid : Text) : List Text :=
  if !isSlug cid then
    [place i ++ " id '".toList ++ (if cid = [] then "?".toList else cid) ++
      "' must be a kebab-case slug (it names the cluster in the survey artifacts)".toList]
  else if seen_ids.contains cid then [place i ++ " duplicate id '".toList ++ cid ++ "'".toList]
  else []

def isStrategy : Yaml → Bool
  | .str s => STRATEGIES.contains s
  | _ => false

/-- The units that a cluster lists, none where it has no list of them. -/
def World.listed (c : Fields) : List Text :=
  match get c "units" with
  | .list units => units.map W.text
  | _ => []

def unitErrors (statuses : List (Text × Json)) (i : ℕ) (cid : Text) (uid : Text) : List Text :=
  match Dict.get statuses uid with
  | none =>
    [named i cid ++ " names unit '".toList ++ uid ++ "' which is not in the inventory — clusters partition the ".toList ++
      "FROZEN list, they never invent units".toList]
  | some status =>
    if isAssessed status then []
    else [named i cid ++ " names unit '".toList ++ uid ++ "' whose status is '".toList ++ W.textJson status ++
      "' — only \x60assessed\x60 units carry work".toList]

/-- What is wrong with a cluster that is a mapping. -/
def clusterErrors (statuses : List (Text × Json)) (i : ℕ) (seen_ids : List Text) (c : Fields) : List Text :=
  let cid := W.orEmpty c "id"
  idErrors i seen_ids cid ++
  (if Text.strip (W.orEmpty c "title") = [] then [named i cid ++ " missing non-empty \x60title\x60".toList] else []) ++
  (if isStrategy (get c "strategy") then []
    else [named i cid ++ " strategy '".toList ++ W.text (get c "strategy") ++
      "' not one of ['dedicated', 'mechanical']".toList]) ++
  (if isSlug (W.orEmpty c "remediation_pattern") then []
    else [named i cid ++ " \x60remediation_pattern\x60 must be a kebab-case slug".toList]) ++
  (if W.listed c = [] then [named i cid ++ " must list at least one unit".toList]
    else (W.listed c).flatMap (unitErrors W statuses i cid))

def checkCluster (statuses : List (Text × Json)) (i : ℕ) (gate : Gate) : Yaml → Answer Gate
  | .dict c =>
    if !hashable (get c "strategy") then throw .typeError
    else
      let cid := W.orEmpty c "id"
      pure {
        errors := gate.errors ++ clusterErrors W statuses i gate.seen_ids c
        seen_ids := if idErrors i gate.seen_ids cid = [] then gate.seen_ids ++ [cid] else gate.seen_ids
        clustered_units := gate.clustered_units ++
          (W.listed c).filter fun uid => (Dict.get statuses uid).any isAssessed }
  | _ => pure { gate with errors := gate.errors ++ [place i ++ " is not a mapping".toList] }

def checkFrom (statuses : List (Text × Json)) : ℕ → Gate → List Yaml → Answer Gate
  | _, gate, [] => pure gate
  | i, gate, c :: cs => do
    let gate ← checkCluster W statuses i gate c
    checkFrom statuses (i + 1) gate cs

def orphans (statuses : List (Text × Json)) (clustered_units : List Text) : List Text :=
  ((statuses.filter fun row => isAssessed row.2 && !clustered_units.contains row.1).map Prod.fst).insertionSort (· ≤ ·)

def orphanError (uid : Text) : Text :=
  "assessed unit '".toList ++ uid ++ "' appears in NO cluster — its findings would silently drop out of ".toList ++
    "the filed records; add it to a cluster".toList

def checkClusters (statuses : List (Text × Json)) (clusters : List Yaml) : Answer PartitionCheck := do
  let gate ← checkFrom W statuses 0 {} clusters
  let errors := gate.errors ++ (orphans statuses gate.clustered_units).map orphanError
  pure (if errors = [] then { partition_ok := true } else { partition_errors := ['\n'].intercalate errors })

def validate_partition (partition : File) (inventory : Option Json) : Answer PartitionCheck :=
  match partition with
  | .missing =>
    pure { partition_errors := "no partition file at ".toList ++ W.part_rel ++ " — the partitioner must write it".toList }
  | .raises => throw .valueError
  | .malformed exc => pure { partition_errors := "partition file is not valid YAML: ".toList ++ exc }
  | .value part => do
    match ← _read_units inventory with
    | none => pure { partition_errors := "inventory at ".toList ++ W.inv_rel ++ " could not be read".toList }
    | some units =>
      let units ← unitItems units
      match clustersOf part with
      | none => pure { partition_errors := "partition file must carry a non-empty \x60clusters:\x60 list".toList }
      | some clusters => checkClusters W (unit_status W (unitDicts units)) clusters

end Survey

/-! ## The register -/

inductive FiledBy
  | coder
  | qa
  | qa_deferred
  | person
  | survey
  | parity
deriving DecidableEq

inductive Status
  | open_
  | done
  | dropped
  | promoted
deriving DecidableEq

structure Record where
  id : Text
  repo : Text
  area : Text
  pattern : Text
  symbols : List Text
  filed_by : FiledBy
  summary : Text
  status : Status
  body : Text

/-- The order of `records`. -/
def Record.le (a b : Record) : Bool := [a.repo, a.area, a.id] ≤ [b.repo, b.area, b.id]

/-- `ID_PATTERN.fullmatch` -/
def isId : Text → Bool
  | [] => false
  | c :: cs => c.isAlphanum && cs.all fun c => c.isAlphanum || c = '.' || c = '_' || c = '-'

/-- The records that are read, in their order, and how many ids were minted. -/
structure Register where
  records : List Record
  minted : ℕ
  distinct : (records.map (·.id)).Nodup
  /-- A record whose id is no path segment is not read. -/
  valid : ∀ record ∈ records, isId record.id = true

theorem nodup_shelved {records : List Record} (h : (records.map (·.id)).Nodup) {record : Record}
    (hnew : record.id ∉ records.map (·.id)) :
    ((records.orderedInsert (fun a b => Record.le a b = true) record).map (·.id)).Nodup :=
  ((List.perm_orderedInsert (fun a b => Record.le a b = true) record records).map (·.id)).nodup_iff.2
    (List.nodup_cons.2 ⟨hnew, h⟩)

theorem valid_shelved {records : List Record} (h : ∀ record ∈ records, isId record.id = true) {record : Record}
    (hnew : isId record.id = true) :
    ∀ other ∈ records.orderedInsert (fun a b => Record.le a b = true) record, isId other.id = true := by
  intro other hother
  rcases (List.mem_orderedInsert _).1 hother with rfl | hother
  · exact hnew
  · exact h other hother

/-- `_SEGMENT.fullmatch` -/
def isSegment : Text → Bool
  | [] => false
  | c :: cs => isSlugChar c && cs.all fun c => isSlugChar c || c = '-'

/-- The first complaint of the validators of `Record`. -/
def complaint (id repo area summary : Text) : Option Text :=
  if !isId id then some ("id: Value error, id ".toList ++ Text.repr id ++ " must be one path-safe segment".toList)
  else if !isSegment repo then
    some ("repo: Value error, repo ".toList ++ Text.repr repo ++ " must be one lowercase kebab segment".toList)
  else if !isSegment area then
    some ("area: Value error, area ".toList ++ Text.repr area ++ " must be one lowercase kebab segment".toList)
  else if Text.strip summary = [] ∨ '\n' ∈ summary ∨ '\r' ∈ summary then
    some "summary: Value error, summary must be one non-empty line".toList
  else none

theorem isId_of_complaint {id repo area summary : Text} (h : complaint id repo area summary = none) : isId id = true := by
  unfold complaint at h
  split at h
  · cases h
  · rename_i hid
    simpa using hid

/-- `text.strip("\n")` -/
def stripNewlines (text : Text) : Text := ((text.dropWhile (· = '\n')).reverse.dropWhile (· = '\n')).reverse

structure Proposal where
  key : Text
  area : Text
  summary : Text
  body : Text
  pattern : Text
  symbols : List Text

structure Filed where
  ids : List (Text × Text) := []
  new : ℕ := 0
  errors : Text := []

structure EmitResult where
  emit_ok : Bool := false
  emit_errors : Text := []
  bullet_count : ℕ := 0
  emit_note : Text := []

/-- A unit of the manifest. -/
structure Entry where
  id : Text
  path : Text
  kind : Text
  status : Text
  bullets : List Text
  clusters : List Text

structure Manifest where
  inventory : Text
  units : List Entry

/-- What `emit_artifacts` returns and leaves; `filed` is what `file_proposals` gave it. -/
structure Emission where
  result : EmitResult
  filed : Filed := {}
  register : Register
  manifest : Option Manifest := none

section Emit

variable (W : World)

/-- The record that `file_record` builds. -/
def World.record (reg : Register) (proposal : Proposal) : Record where
  id := W.mint reg.minted
  repo := W.repo
  area := segment proposal.area
  pattern := proposal.pattern
  symbols := proposal.symbols
  filed_by := .survey
  summary := Text.strip proposal.summary
  status := .open_
  body := stripNewlines proposal.body

/-- `file_record`: the register with the record, or why it was not filed. -/
def file_record (reg : Register) (proposal : Proposal) : Except Text Register :=
  let record := W.record reg proposal
  match hcomplaint : complaint record.id record.repo record.area proposal.summary with
  | some msg => throw ("invalid record: ".toList ++ msg)
  | none =>
    if hheld : record.id ∈ reg.records.map (·.id) then
      throw ("record id '".toList ++ record.id ++ "' is already taken".toList)
    else if W.taken record.id then throw ("record id '".toList ++ record.id ++ "' is already taken".toList)
    else
      pure {
        records := reg.records.orderedInsert (fun a b => Record.le a b = true) record
        minted := reg.minted + 1
        distinct := nodup_shelved reg.distinct hheld
        valid := valid_shelved reg.valid (isId_of_complaint hcomplaint) }

/-- The open records of the survey. -/
def openRecords (reg : Register) : List Record :=
  reg.records.filter fun record => record.repo = W.repo ∧ record.status = .open_ ∧ record.filed_by = .survey

def held (reg : Register) : List (Text × Text) :=
  (openRecords W reg).foldl (fun held record => Dict.set held record.summary record.id) []

/-- `file_proposals` of the proposals from one on. -/
def fileFrom : List Proposal → List (Text × Text) → Filed → Register → Filed × Register
  | [], _, filed, reg => (filed, reg)
  | proposal :: proposals, held, filed, reg =>
    let known := (Dict.get held proposal.summary).getD []
    if known ≠ [] then
      fileFrom proposals held { filed with ids := Dict.set filed.ids proposal.key known } reg
    else
      match file_record W reg proposal with
      | .error message =>
        ({ filed with errors := proposal.key ++ " was not filed: ".toList ++ message }, { reg with minted := reg.minted + 1 })
      | .ok shelved =>
        let id := W.mint reg.minted
        fileFrom proposals (Dict.set held proposal.summary id)
          { filed with ids := Dict.set filed.ids proposal.key id, new := filed.new + 1 } shelved

def file_proposals (reg : Register) (proposals : List Proposal) : Filed × Register :=
  fileFrom W proposals (held W reg) {} reg

/-! ## The artifacts -/

/-- How far some lists are the same. -/
def shared : List (List Text) → List Text
  | [] => []
  | level :: levels => ((level.zipIdx).takeWhile fun row => levels.all fun other => other[row.2]? = some row.1).map Prod.fst

/-- `p.strip("/")` -/
def stripSlashes (path : Text) : Text := ((path.dropWhile (· = '/')).reverse.dropWhile (· = '/')).reverse

def common_area (paths : List Text) : Text :=
  let parents := ((paths.map stripSlashes).filter (· ≠ [])).map fun path => (Changes.parts path).dropLast
  ((shared parents).getLast?).elim "general".toList segment

/-- `cluster.get("units") or []`, as texts -/
def World.unitTexts (cluster : Fields) : Answer (List Text) := do
  let units ← if truthy (get cluster "units") then items (get cluster "units") else pure []
  pure (units.map W.text)

def proposal_for (paths : List (Text × Text)) (cluster : Fields) : Answer Proposal := do
  let some id := find cluster "id" | throw .keyError
  let cid := W.text id
  let strategy := W.orBlank cluster "strategy"
  let units ← W.unitTexts cluster
  let pattern := W.orBlank cluster "remediation_pattern"
  let quoted := units.map fun unit => '\x60' :: unit ++ ['\x60']
  let notes := Gates.squeezed (W.orEmpty cluster "notes")
  let lines := [
    "Cluster \x60".toList ++ cid ++ "\x60, remediation pattern \x60".toList ++ pattern ++ "\x60.".toList,
    decimal units.length ++ " unit(s), ".toList ++ strategy ++
      (if strategy = "mechanical".toList then " checklist: keep as ONE story with a per-unit checklist.".toList
        else ".".toList),
    "Units: ".toList ++ ", ".toList.intercalate quoted] ++ (if notes = [] then [] else [notes])
  pure {
    key := cid
    area := common_area (units.map fun unit => (Dict.get paths unit).getD unit)
    pattern := segment pattern "untriaged".toList
    symbols := units
    summary := Gates.squeezed (W.orBlank cluster "title")
    body := "\n\n".toList.intercalate lines }

/-- `str(u.get("path") or u.get("id", ""))` of every unit, by its id -/
def World.paths (units : List Json.Fields) : List (Text × Text) :=
  units.foldl (fun paths unit =>
    let path := Json.get unit "path".toList
    Dict.set paths (W.entryId unit) (if Json.truthy path then W.textJson path else W.entryId unit)) []

/-- `str(u.get(key, default))` -/
def World.fieldText (unit : Json.Fields) (key : String) (default : Text) : Text :=
  ((unit.lookup key.toList).map W.textJson).getD default

/-- The clusters by order and id. -/
def World.ordered (clusters : List Fields) : Answer (List Fields) :=
  match W.sorted (clusters.map fun c => (((find c "order").getD (.int 1000000), W.orBlank c "id"), c)) with
  | none => throw .typeError
  | some rows => pure (rows.map Prod.snd)

/-- The mappings among the clusters. -/
def clusterDicts (clusters : List Yaml) : List Fields :=
  clusters.filterMap fun
    | .dict c => some c
    | _ => none

/-- The clusters of a partition. -/
def clustersIn : File → List Fields
  | .value part => (clustersOf part).elim [] clusterDicts
  | _ => []

/-- The units of an inventory. -/
def unitsIn : Option Json → List Json.Fields
  | some (.obj kvs) => ((unitItems (Json.get kvs "units".toList)).toOption.getD []) |> unitDicts
  | _ => []

/-- What a cluster adds to the manifest: its units, each with its record and its id. -/
def World.bullets (ids : List (Text × Text)) (cluster : Fields) : Answer (List (Text × Text × Text)) := do
  let cid := W.orBlank cluster "id"
  let units ← W.unitTexts cluster
  if units = [] then pure []
  else
    let some record := Dict.get ids cid | throw .keyError
    pure (units.map fun unit => (unit, record, cid))

def World.entry (rows : List (Text × Text × Text)) (unit : Json.Fields) : Entry :=
  let uid := W.entryId unit
  { id := uid
    path := W.fieldText unit "path" uid
    kind := W.fieldText unit "kind" []
    status := W.fieldText unit "status" []
    bullets := (rows.filter fun row => row.1 = uid).map fun row => row.2.1
    clusters := (rows.filter fun row => row.1 = uid).map fun row => row.2.2 }

/-- The result of an emission, with how many records are new. -/
def World.emitted (new clusters units : ℕ) : EmitResult where
  emit_ok := true
  bullet_count := clusters
  emit_note := "filed ".toList ++ decimal new ++ " of ".toList ++ decimal clusters ++
    " cluster record(s) and wrote ".toList ++ decimal units ++ " unit(s) into ".toList ++ W.manifest_rel

/-- `emit_artifacts` of the clusters, and of the units of the inventory -/
def emitClusters (clusters : List Yaml) (units : List Json.Fields) (reg : Register) : Answer Emission := do
  let ordered ← W.ordered (clusterDicts clusters)
  let proposals ← ordered.mapM (proposal_for W (W.paths units))
  let (filed, register) := file_proposals W reg proposals
  if filed.errors ≠ [] then pure { result := { emit_errors := filed.errors }, filed, register }
  else
    let rows ← ordered.mapM (W.bullets filed.ids)
    let entries := units.map (W.entry rows.flatten)
    pure {
      result := W.emitted filed.new ordered.length entries.length
      filed
      register
      manifest := some { inventory := W.inv_rel, units := entries } }

def emit_artifacts (partition : File) (inventory : Option Json) (reg : Register) : Answer Emission :=
  let unread := "partition at ".toList ++ W.part_rel ++ " could not be read — run the partition gate first".toList
  match partition with
  | .value part =>
    match clustersOf part with
    | none => pure { result := { emit_errors := unread }, register := reg }
    | some clusters => do
      match ← _read_units inventory with
      | none =>
        let errors := "inventory at ".toList ++ W.inv_rel ++ " could not be read".toList
        pure { result := { emit_errors := errors }, register := reg }
      | some units => do
        let units ← unitItems units
        emitClusters W clusters (unitDicts units) reg
  | _ => pure { result := { emit_errors := unread }, register := reg }

end Emit

end Stablemate.Survey
