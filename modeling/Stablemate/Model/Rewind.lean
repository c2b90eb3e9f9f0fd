import Mathlib.Data.List.Dedup
import Stablemate.Lib.Run
import Stablemate.Proof.PyJson

/-!
# Rewinding a stopped run (`rewind.py`)

`rewind` reads the checkpoint of a run directory, validates the move, and then writes: the
backup, the new checkpoint, the sub-flow checkpoints that are set aside, and a line of the
event log. The bytes of a file are of an arbitrary type `B`; what pydantic reads of them and
writes is a `Format`.
-/

namespace Stablemate.Rewind

open PyJson

/-- `sorted(set(names))`. -/
def sortedNames (names : List Text) : List Text := names.dedup.insertionSort (· ≤ ·)

/-! ## Time -/

/-- A time in UTC. -/
structure DateTime where
  year : ℕ
  month : ℕ
  day : ℕ
  hour : ℕ
  minute : ℕ
  second : ℕ
  microsecond : ℕ

/-- A number of at least `width` digits. -/
def padded (width n : ℕ) : Text :=
  let digits := Nat.toDigits 10 n
  List.replicate (width - digits.length) '0' ++ digits

/-- `strftime("%Y%m%dT%H%M%SZ")`. -/
def DateTime.compact (t : DateTime) : Text :=
  padded 4 t.year ++ padded 2 t.month ++ padded 2 t.day ++ ['T'] ++ padded 2 t.hour ++
    padded 2 t.minute ++ padded 2 t.second ++ ['Z']

/-- `isoformat()`. -/
def DateTime.isoformat (t : DateTime) : Text :=
  padded 4 t.year ++ ['-'] ++ padded 2 t.month ++ ['-'] ++ padded 2 t.day ++ ['T'] ++
    padded 2 t.hour ++ [':'] ++ padded 2 t.minute ++ [':'] ++ padded 2 t.second ++
    (if t.microsecond = 0 then [] else '.' :: padded 6 t.microsecond) ++ "+00:00".toList

/-! ## The run directory -/

/-- The run directory itself, or the `_flow` directory of a node. -/
inductive Place
  | root
  | flow (node : Text)
deriving DecidableEq

/-- A `NodeEvent` of the phase `rewind`. -/
structure NodeEvent where
  ts : Text
  seq : ℤ
  node : Text
  from_state : Text
  from_waiting_on : Option Text
  dropped : List Text
  backup : Text
  abandoned : List Text

/-- The files of a run, the nodes with a `_flow` directory, sorted, and what was appended to
the event log. -/
structure RunDir (B : Type*) where
  file : Place → Text → Option B
  flows : List Text
  events : List NodeEvent

def CHECKPOINT_FILE : Text := "checkpoint.json".toList

/-- The file that a checkpoint is written to before it is moved in place. -/
def TMP_FILE : Text := CHECKPOINT_FILE ++ ".tmp".toList

def backupName (now : DateTime) : Text :=
  "checkpoint.rewound-".toList ++ now.compact ++ ".json".toList

variable {B : Type*}

/-- A file is written, or with `none` taken away. -/
def RunDir.put (dir : RunDir B) (place : Place) (name : Text) (b : Option B) : RunDir B :=
  { dir with file := fun p n => if p = place ∧ n = name then b else dir.file p n }

/-! ## Checkpoints -/

/-- A `PyflowCheckpoint`: it has a state, and its values are what JSON gives. -/
structure Checkpoint where
  workflow : Text
  run_id : Text
  flow : Option Text
  state : Text
  params : Entries
  waiting_on : Option Text
  inputs : Entries
  ctx : Value
  seq : ℤ
  updated_at : Text
  state_ne : state ≠ []
  params_plain : Plain (.dict params)
  inputs_plain : Plain (.dict inputs)
  ctx_plain : Plain ctx

/-- What `parse_checkpoint` gives. -/
inductive Parsed
  | pyflow (c : Checkpoint)
  /-- A checkpoint of the retired YAML engine. -/
  | nodeGraph

theorem plain_nulled_dict {kvs : Entries} (h : Plain (.dict kvs)) : Plain (.dict (nulledEntries kvs)) := by
  simpa [nulled] using plain_nulled _ h

/-- The checkpoint as `model_dump_json` writes it. -/
def Checkpoint.nulled (c : Checkpoint) : Checkpoint :=
  { c with
    params := nulledEntries c.params
    inputs := nulledEntries c.inputs
    ctx := PyJson.nulled c.ctx
    params_plain := plain_nulled_dict c.params_plain
    inputs_plain := plain_nulled_dict c.inputs_plain
    ctx_plain := plain_nulled _ c.ctx_plain }

/-- pydantic, on the bytes of a file: `parse_checkpoint`, `model_dump_json`, and whether a
`run.json` has a terminal. -/
structure Format (B : Type*) where
  parse : B → Option Parsed
  write : Checkpoint → B
  ended : B → Bool

/-! ## The registry -/

/-- A parameter of a state: `validate_python` of its annotation, if it has one. -/
structure Param where
  name : Text
  annotation : Option (Value → Option Value)
  required : Bool

structure StateSpec where
  name : Text
  params : List Param
  name_ne : name ≠ []

structure Workflow where
  model_fields : List Text
  /-- Whether `workflow_cls(**inputs)` can be built. -/
  builds : Entries → Bool
  resolve_state : Text → Option StateSpec

structure Registry where
  /-- The registered flow whose class has a name that is not empty. -/
  class_named : Text → Option Workflow
  /-- `flow(None)`. -/
  entry : Option Workflow

inductive WorkflowFailed
  | unknownParam (names : List Text)
  | invalidParam (name : Key)
  | missingParam (names : List Text)

/-- The annotation of a parameter. -/
def hint (params : List Param) (name : Key) : Option (Value → Option Value) :=
  (params.find? fun p => name = .str p.name).bind Param.annotation

/-- The values, each validated by its annotation. -/
def coerceAll (params : List Param) : Entries → Except WorkflowFailed Entries
  | [] => .ok []
  | (k, x) :: kvs =>
    match hint params k with
    | none => (coerceAll params kvs).map ((k, x) :: ·)
    | some validate =>
      match validate x with
      | none => .error (.invalidParam k)
      | some y => (coerceAll params kvs).map ((k, y) :: ·)

/-- `coerce_params`. -/
def coerceParams (params : List Param) (kvs : Entries) : Except WorkflowFailed Entries :=
  let unknown := (kvs.map (·.1)).filter fun k => !(params.map fun p => Key.str p.name).contains k
  if unknown ≠ [] then .error (.unknownParam (sortedNames (unknown.map Key.text)))
  else
    match coerceAll params kvs with
    | .error e => .error e
    | .ok coerced =>
      let missing := params.filter fun p => p.required && !(coerced.map (·.1)).contains (.str p.name)
      if missing ≠ [] then .error (.missingParam (missing.map Param.name)) else .ok coerced

/-! ## Rewinding -/

/-- The arguments of `rewind`. -/
structure Request where
  to_state : Text
  set_params : Entries
  keep : Option (List Text)
  now : DateTime

/-- A `RewindError`. -/
inductive RewindError
  | unreadable
  | yamlEngine
  | unregistered (flow : Text)
  | noEntry
  | unknownState
  | badInputs
  | unknownKeep (names : List Text)
  | badParams (why : WorkflowFailed)

structure Rewound where
  from_state : Text
  to_state : Text
  params : Entries
  dropped : List Text
  backup : Text
  abandoned : List Text

inductive Outcome
  | refused (e : RewindError)
  /-- Another exception: the params could not be written. -/
  | raised
  | returned (r : Rewound)

/-- The workflow that a checkpoint names, or the entry of the registry. -/
def workflowOf (r : Registry) (flow : Option Text) : Except RewindError Workflow :=
  let name := flow.getD []
  match if name = [] then none else r.class_named name with
  | some w => .ok w
  | none =>
    if name ≠ [] then .error (.unregistered name)
    else
      match r.entry with
      | some w => .ok w
      | none => .error .noEntry

/-- The names that are carried over. -/
def carried (spec : StateSpec) (keep : Option (List Text)) : List Key :=
  match keep with
  | some names => names.map .str
  | none => spec.params.map fun p => .str p.name

/-- The params of the new checkpoint: those carried over, and over them those that are set. -/
def newParams (old : Entries) (spec : StateSpec) (q : Request) : Entries :=
  q.set_params.foldl (fun d kx => setItem kx.1 kx.2 d)
    (old.filter fun kx =>
      (carried spec q.keep).contains kx.1 && (spec.params.map fun p => Key.str p.name).contains kx.1)

/-- The checkpoint, with its bytes, and the state it is to be moved to. -/
structure Plan (B : Type*) where
  text : B
  checkpoint : Checkpoint
  spec : StateSpec

/-- What `rewind` does before its first write. -/
def check (F : Format B) (r : Registry) (dir : RunDir B) (q : Request) : Except RewindError (Plan B) :=
  match dir.file .root CHECKPOINT_FILE with
  | none => .error .unreadable
  | some text =>
    match F.parse text with
    | none => .error .unreadable
    | some .nodeGraph => .error .yamlEngine
    | some (.pyflow c) =>
      match workflowOf r c.flow with
      | .error e => .error e
      | .ok w =>
        match w.resolve_state q.to_state with
        | none => .error .unknownState
        | some spec =>
          if !w.builds (c.inputs.filter fun kx => (w.model_fields.map Key.str).contains kx.1) then
            .error .badInputs
          else
            let unknown := (q.keep.getD []).filter fun name => !(c.params.map (·.1)).contains (.str name)
            if unknown ≠ [] then .error (.unknownKeep (sortedNames unknown))
            else
              match coerceParams spec.params (newParams c.params spec q) with
              | .error e => .error (.badParams e)
              | .ok _ => .ok { text, checkpoint := c, spec }

/-- `json.loads(json.dumps(params))`. -/
def reread (params : Entries) : Option { kvs : Entries // Plain (.dict kvs) } :=
  match h : jsonEntries params with
  | none => none
  | some kws => some ⟨ofPairs kws, plain_of_json (.dict params) _ (by simp [json, h])⟩

/-- The new checkpoint. -/
def rewritten (p : Plan B) (q : Request) (kvs : { kvs : Entries // Plain (.dict kvs) }) : Checkpoint :=
  { p.checkpoint with
    state := p.spec.name
    params := kvs.val
    waiting_on := none
    updated_at := q.now.isoformat
    state_ne := p.spec.name_ne
    params_plain := kvs.property }

/-- The nodes whose sub-flow is not finished and has a checkpoint. -/
def unfinished (F : Format B) (dir : RunDir B) : List Text :=
  dir.flows.filter fun node =>
    (dir.file (.flow node) CHECKPOINT_FILE).isSome &&
      !((dir.file (.flow node) "run.json".toList).any F.ended)

/-- `_abandon_sub_flows`: their checkpoints are moved to the backup's name. -/
def setAside (nodes : List Text) (backup : Text) (dir : RunDir B) : RunDir B :=
  { dir with
    file := fun place name =>
      match place with
      | .root => dir.file .root name
      | .flow node =>
        if node ∈ nodes then
          if name = CHECKPOINT_FILE then none
          else if name = backup then dir.file (.flow node) CHECKPOINT_FILE
          else dir.file (.flow node) name
        else dir.file (.flow node) name }

/-- The keys of `old` that are not in `new`. -/
def dropped (old new : Entries) : List Text :=
  sortedNames (((old.map (·.1)).filter fun k => !(new.map (·.1)).contains k).map Key.text)

/-- `rewind`. -/
def rewind (F : Format B) (r : Registry) (dir : RunDir B) (q : Request) : RunDir B × Outcome :=
  match check F r dir q with
  | .error e => (dir, .refused e)
  | .ok p =>
    let c := p.checkpoint
    let params := newParams c.params p.spec q
    let backup := backupName q.now
    let copied := dir.put .root backup (some p.text)
    match reread params with
    | none => (copied, .raised)
    | some kvs =>
      let moved :=
        (copied.put .root CHECKPOINT_FILE (some (F.write (rewritten p q kvs)))).put .root TMP_FILE none
      let abandoned := unfinished F moved
      let aside := setAside abandoned backup moved
      let event : NodeEvent :=
        { ts := q.now.isoformat, seq := c.seq, node := p.spec.name, from_state := c.state
          from_waiting_on := c.waiting_on, dropped := dropped c.params params, backup, abandoned }
      ({ aside with events := aside.events ++ [event] },
        .returned
          { from_state := c.state, to_state := p.spec.name, params := kvs.val
            dropped := dropped c.params params, backup, abandoned })

/-! ## Sequences of rewinds -/

/-- A checkpoint that a rewind replaced, and where its backup is said to be. -/
structure Replaced (B : Type*) where
  place : Place
  backup : Text
  text : Option B

structure State (B : Type*) where
  dir : RunDir B
  replaced : List (Replaced B)

/-- What a rewind replaces: the root checkpoint, at the backup that it returns, and those of the
sub-flows, at the backup that its event records. -/
def replacedBy (dir : RunDir B) (m : Rewound) : List (Replaced B) :=
  { place := .root, backup := m.backup, text := dir.file .root CHECKPOINT_FILE } ::
    m.abandoned.map fun node =>
      { place := .flow node, backup := m.backup, text := dir.file (.flow node) CHECKPOINT_FILE }

def step (F : Format B) (r : Registry) (s : State B) (q : Request) : Option (State B) :=
  match rewind F r s.dir q with
  | (dir, .returned m) => some { dir, replaced := s.replaced ++ replacedBy s.dir m }
  | (dir, _) => some { s with dir }

def start (dir : RunDir B) : State B where
  dir := dir
  replaced := []

/-- No file has the backup's name, in the run directory or beside a checkpoint to be set aside. -/
def Fresh (F : Format B) (s : State B) (q : Request) : Prop :=
  s.dir.file .root (backupName q.now) = none ∧
    ∀ node ∈ unfinished F s.dir, s.dir.file (.flow node) (backupName q.now) = none

/-- The params to be written are what JSON gives, with no NaN and no infinity. -/
def Fit (F : Format B) (r : Registry) (dir : RunDir B) (q : Request) : Prop :=
  ∀ p, check F r dir q = .ok p →
    Plain (.dict (newParams p.checkpoint.params p.spec q)) ∧
      finite (.dict (newParams p.checkpoint.params p.spec q)) = true

end Stablemate.Rewind
