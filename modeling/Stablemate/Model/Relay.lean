import Mathlib.Data.List.Sort
import Stablemate.Lib.Stream
import Stablemate.Model.Verbs

/-!
# A child whose output is masked (`saddlebag/redact.py`, `cmd_exec` of `saddlebag/cli.py`)

`Redactor` replaces every form of some values in a stream that arrives in pieces. It holds back
what a later piece may turn into a match. `cmd_exec` asks `env` for the values, decides by the
name of a variable which of them are masked, and relays the child's output through a redactor
for each of its two streams.

A byte is a number, and a stream any list of them.
-/

namespace Stablemate.Saddlebag

open PyJson (Value Key Entries)

/-- `b"[REDACTED]"` -/
def MARK : List ℕ := Text.utf8 (lit "[REDACTED]")

/-- The forms of some values, as bytes and without the empty one. -/
def needleSet (values : List Text) : List (List ℕ) := ((values.flatMap forms).filter (· ≠ [])).map Text.utf8

/-- Longer words come first. -/
def LongestFirst (words : List (List ℕ)) : Prop := words.Pairwise fun a b => b.length ≤ a.length

structure Redactor where
  needles : List (List ℕ)
  held : List ℕ
  some : needles ≠ []
  nonempty : ∀ w ∈ needles, w ≠ []
  sorted : LongestFirst needles

/-- `sorted(words, key=len, reverse=True)` -/
def sortedByLength (words : List (List ℕ)) : List (List ℕ) := words.insertionSort fun a b => b.length ≤ a.length

theorem longestFirst_sorted (words : List (List ℕ)) : LongestFirst (sortedByLength words) :=
  List.pairwise_insertionSort (fun a b : List ℕ => b.length ≤ a.length) words

theorem mem_sortedByLength {words : List (List ℕ)} {w : List ℕ} : w ∈ sortedByLength words ↔ w ∈ words :=
  List.mem_insertionSort _

theorem needleSet_ne_nil {values : List Text} {w : List ℕ} (h : w ∈ needleSet values) : w ≠ [] := by
  obtain ⟨form, hform, rfl⟩ := List.mem_map.1 h
  exact Text.utf8_ne_nil (of_decide_eq_true (List.mem_filter.1 hform).2)

/-- `Redactor(values)` -/
def Redactor.new (values : List Text) : Checked Redactor :=
  let needles := sortedByLength (needleSet values).dedup
  if h : needles = [] then throw (lit "a redactor needs at least one non-empty value")
  else
    pure { needles, held := [], some := h, sorted := longestFirst_sorted _,
           nonempty := fun _ hw => needleSet_ne_nil (List.mem_dedup.1 (mem_sortedByLength.1 hw)) }

/-- `len(needles[0])` -/
def Redactor.longest (r : Redactor) : ℕ := (r.needles.head r.some).length

/-- The pattern: the first of the needles that stands there. -/
def Redactor.pattern (r : Redactor) : List ℕ → ℕ := Scan.firstOf r.needles

def Redactor.feed (r : Redactor) (chunk : List ℕ) : List ℕ × Redactor :=
  let held := r.held ++ chunk
  -- below zero where less is held than the longest needle
  let safe := held.length + 1 - r.longest
  let (out, pos) := Scan.copy MARK held safe 0 (Scan.spans r.pattern 0 0 held)
  let cut := max pos safe
  (out ++ (held.drop pos).take (cut - pos), { r with held := held.drop cut })

def Redactor.flush (r : Redactor) : List ℕ × Redactor := (Scan.sub r.pattern MARK 0 r.held, { r with held := [] })

/-- What `_pump` writes: the pieces as they arrive, and the rest. -/
def _pump : Redactor → List (List ℕ) → List ℕ
  | r, [] => r.flush.1
  | r, chunk :: chunks =>
    let (out, r) := r.feed chunk
    out ++ _pump r chunks

/-- What `relay` writes to stdout and stderr, for what the child writes to each. -/
def relay (values : List Text) (stdout stderr : List (List ℕ)) : Checked (List ℕ × List ℕ) := do
  let out ← Redactor.new values
  let err ← Redactor.new values
  pure (_pump out stdout, _pump err stderr)

/-! ## `exec` -/

/-- One `--env`. -/
structure Binding where
  var : Text
  name : Text
  field : Text

def _binding (text : Text) : Checked Binding :=
  let (var, sep, source) := partition '=' text
  let (name, _, field) := partition '.' source
  if !sep || var = [] || name = [] then
    throw (lit "invalid --env " ++ Text.repr text ++ lit ": expected VAR=NAME or VAR=NAME[.field|.meta.key]")
  else pure ⟨var, name, if field = [] then lit "password" else field⟩

def Binding.value (b : Binding) : Value :=
  .dict [entry "var" (str b.var), entry "name" (str b.name), entry "field" (str b.field)]

structure ExecArgs where
  command : List Text
  tag : List Text
  env : List Text

/-- The bindings whose value is not a secret: `plain`, by variable. -/
def plainVars (bindings : List Binding) : List Text :=
  (bindings.filter fun b => b.field = lit "username" || META_PREFIX.isPrefixOf b.field).map (·.var)

/-- What is masked, if it is long enough: `hidden`. -/
def hiddenValues (bindings : List Binding) (values : List (Text × Text)) : List (Text × Text) :=
  values.filter fun kv => !(plainVars bindings).contains kv.1 && kv.2 ≠ []

def maskedValues (bindings : List Binding) (values : List (Text × Text)) : List Text :=
  ((hiddenValues bindings values).map Prod.snd).filter fun value => MIN_LENGTH ≤ value.length

/-- `{**environ, **values}` -/
def merged (environ values : List (Text × Text)) : List (Text × Text) :=
  values.foldl (fun env kv => setKey kv.1 kv.2 env) environ

/-- The variables and values of a reply; the counter sends nothing but texts. -/
def repliedValues (result : Entries) : Option (List (Text × Text)) :=
  match argument result (lit "values") with
  | .dict kvs => some (kvs.filterMap fun
      | (.str var, .str value) => some (var, value)
      | _ => none)
  | _ => none

def envArgs (tags : List Text) (bindings : List Binding) : Entries :=
  [entry "tags" (strings tags), entry "bindings" (.list (bindings.map Binding.value))]

/-- What the command is started with. -/
structure Launch where
  environ : List (Text × Text)
  bindings : List Binding
  values : List (Text × Text)

def Launch.env (l : Launch) : List (Text × Text) := merged l.environ l.values

def Launch.masked (l : Launch) : List Text := maskedValues l.bindings l.values

/-- The variables that a warning names, unless the output is a terminal. -/
def Launch.warned (l : Launch) : List Text :=
  sortedTexts (((hiddenValues l.bindings l.values).filter fun kv => kv.2.length < MIN_LENGTH).map Prod.fst)

/-- What `cmd_exec` does: it fails with a message and a code, becomes the command, or runs the
command with its output masked. -/
inductive Exec where
  | failed (message : Text) (code : ℕ)
  | becomes (l : Launch)
  | relays (l : Launch)

section Exec

variable {τ σ : Type} (store : SecretStore τ) (doors : Doors σ) (counter : Counter)

def cmd_exec (environ : List (Text × Text)) (terminal : Bool) (args : ExecArgs) (bag : Bag τ σ) : Exec × Bag τ σ :=
  let command := if args.command.take 1 = [lit "--"] then args.command.drop 1 else args.command
  if command = [] then (.failed (lit "exec needs a command after --") 2, bag)
  else if args.tag = [] && args.env = [] then (.failed (lit "exec needs at least one --tag or --env") 2, bag)
  else
    match args.env.mapM _binding with
    | .error message => (.failed message 2, bag)
    | .ok bindings =>
      match args.tag.mapM parse_tag with
      | .error message => (.failed message 2, bag)
      | .ok _ =>
        let (reply, bag) := handle store doors counter ⟨lit "env", envArgs args.tag bindings⟩ bag
        if !reply.ok then (.failed (reply.error.getD (lit "env failed")) 1, bag)
        else
          match repliedValues reply.result with
          | none => (.failed (lit "the reply carried no environment") 1, bag)
          | some values =>
            let l : Launch := ⟨environ, bindings, values⟩
            (if terminal || l.masked = [] then .becomes l else .relays l, bag)

end Exec

end Stablemate.Saddlebag
