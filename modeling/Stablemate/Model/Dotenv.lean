import Stablemate.Model.Shelf

/-!
# Dotenv files (`saddlebag/dotenv.py`, `stablemate_core/dotenv.py`, `saddlebag/cli.py`)

An assignment is one line of `str.splitlines`. `env show` prints each line, with a mark for the values that are
secret; `env import` stores the values of some keys.

What answers a request, the daemon or the keyring, is a parameter.
-/

namespace Stablemate.Dotenv

open Text (isSpace strip splitlines)
open Saddlebag (isAlpha isDigit spelled partition validate_name parse_tag)

/-! ## Lines -/

def MARK : Text := "[REDACTED]".toList

/-- `_KEY.fullmatch` -/
def isKey (key : Text) : Bool :=
  spelled (fun c => isAlpha c || c = '_') (fun c => isAlpha c || isDigit c || c = '_' || c = '.' || c = '-') key

/-- What is behind `export\s+` at the front of a text. -/
def afterExport (text : Text) : Option Text :=
  if text.take 6 = "export".toList ∧ (text.drop 6).head?.any isSpace then some ((text.drop 6).dropWhile isSpace) else none

/-- `_COMMENT.sub("", text)` in a line, which has no newline: a comment goes on to its end. -/
def uncommented : Text → Text
  | [] => []
  | c :: cs => if isSpace c && (cs.dropWhile isSpace).head? = some '#' then [] else c :: uncommented cs

/-- A value without its quotes, the last of which may be missing, or without its comment. -/
def unquote (text : Text) : Text :=
  match text with
  | '\'' :: cs => cs.takeWhile (· ≠ '\'')
  | '"' :: cs => cs.takeWhile (· ≠ '"')
  | _ => strip (uncommented text)

/-- `assignment` -/
def assignment (raw : Text) : Option (Text × Text) :=
  let text := strip raw
  if text = [] ∨ text.head? = some '#' then none
  else
    let (key, sep, rest) := partition '=' ((afterExport text).getD text)
    let key := strip key
    if !sep || !isKey key then none else some (key, unquote (strip rest))

structure Line where
  raw : Text
  key : Option Text
  value : Option Text
deriving DecidableEq

def _line (raw : Text) : Line := { raw, key := (assignment raw).map (·.1), value := (assignment raw).map (·.2) }

def parse (text : Text) : List Line := (splitlines text).map _line

/-- What is behind `key\s*=\s*` at the front of a text. -/
def afterKey (key text : Text) : Option Text :=
  let rest := (text.drop key.length).dropWhile isSpace
  if key.isPrefixOf text ∧ rest.head? = some '=' then some ((rest.drop 1).dropWhile isSpace) else none

/-- The pattern's first way is with `export`, and its second one without. -/
def mask (line : Line) : Text :=
  match line.key with
  | none => line.raw
  | some key =>
    let text := line.raw.dropWhile isSpace
    match ((afterExport text).bind (afterKey key)).or (afterKey key text) with
    | none => line.raw
    | some rest => line.raw.take (line.raw.length - rest.length) ++ MARK

/-! ## `env show` -/

/-- The assignments that `classify` is asked about. -/
def entries (lines : List Line) : List (Text × Text) :=
  lines.filterMap fun line => line.key.map fun key => (key, line.value.getD [])

/-- The printed lines and how many are masked; `none` where the verdicts run out. -/
def printed : List Line → List Bool → Option (List Text × ℕ)
  | [], _ => some ([], 0)
  | line :: lines, verdicts =>
    match line.key, verdicts with
    | none, verdicts => (printed lines verdicts).map fun p => (line.raw :: p.1, p.2)
    | some _, [] => none
    | some _, secret :: verdicts =>
      (printed lines verdicts).map fun p => if secret then (mask line :: p.1, p.2 + 1) else (line.raw :: p.1, p.2)

/-- A line without a key uses no verdict, one with a key the next one. -/
theorem printed_none {line : Line} (h : line.key = none) (lines : List Line) (verdicts : List Bool) :
    printed (line :: lines) verdicts = (printed lines verdicts).map fun p => (line.raw :: p.1, p.2) := by
  simp only [printed, h]

theorem printed_some {line : Line} {key : Text} (h : line.key = some key) (lines : List Line) (secret : Bool)
    (verdicts : List Bool) : printed (line :: lines) (secret :: verdicts) = (printed lines verdicts).map fun p =>
      if secret then (mask line :: p.1, p.2 + 1) else (line.raw :: p.1, p.2) := by
  simp only [printed, h]

def env_show (lines : List Line) (verdicts : List Bool) : Option (List Text) :=
  (printed lines verdicts).map fun p =>
    p.1 ++ ["masked ".toList ++ Nat.toDigits 10 p.2 ++ " of ".toList ++ Nat.toDigits 10 (entries lines).length ++ " values".toList]

/-! ## `env import` -/

/-- A request to the store. -/
inductive Ask where
  | create (name var : Text) (tags : List Text)
  | set (name value : Text)
deriving DecidableEq

/-- How `env import` ends: its exit code, the last line of its errors, the requests that were answered, and what it
says it stored. -/
structure Ended where
  code : ℕ
  error : Text := []
  asked : List Ask := []
  stored : List (Text × Text) := []

/-- `--keys` -/
def keysOf (keys : Text) : List Text := ((keys.splitOn ',').map strip).filter (· ≠ [])

/-- `values.get(key)`: a later assignment of a key replaces an earlier one. -/
def valueOf (lines : List Line) (key : Text) : Option Text := (entries lines).reverse.lookup key

def nameOf (pre key : Text) : Text := pre ++ Text.replace ['_'] ['-'] (Text.lower key)

/-- The first thing wrong with the keys. -/
def wrongKey (file : Text) (lines : List Line) : List Text → Option Text
  | [] => none
  | key :: keys =>
    match valueOf lines key with
    | none => some (file ++ " has no ".toList ++ key)
    | some value => if value = [] then some (key ++ " has an empty value in ".toList ++ file) else wrongKey file lines keys

/-- The first key that makes no name. -/
def wrongName (pre : Text) : List Text → Option Text
  | [] => none
  | key :: keys =>
    match validate_name (nameOf pre key) with
    | .error _ => some (key ++ " does not make a valid secret name (".toList ++ Text.repr (nameOf pre key) ++ [')'])
    | .ok _ => wrongName pre keys

/-- The loop over the keys; `answer` is given the requests so far. -/
def storing (answer : List Ask → Ask → Except Text Unit) (lines : List Line) (pre : Text) (tags : List Text) :
    List Text → List Ask → List (Text × Text) → Ended
  | [], asked, stored => { code := 0, asked, stored }
  | key :: keys, asked, stored =>
    let create := Ask.create (nameOf pre key) key tags
    let set := Ask.set (nameOf pre key) ((valueOf lines key).getD [])
    match answer asked create with
    | .error message => { code := 1, error := message, asked, stored }
    | .ok _ =>
      match answer (asked ++ [create]) set with
      | .error message => { code := 1, error := message, asked := asked ++ [create], stored }
      | .ok _ => storing answer lines pre tags keys (asked ++ [create, set]) (stored ++ [(key, nameOf pre key)])

/-- `cmd_env_import`; `read` gives the file's text or why it cannot be read. -/
def cmd_env_import (answer : List Ask → Ask → Except Text Unit) (file : Text) (read : Except Text Text) (keys pre : Text)
    (tags : List Text) : Ended :=
  let keys := keysOf keys
  if keys = [] then { code := 2, error := "--keys names no key".toList }
  else if ¬ keys.Nodup then { code := 2, error := "--keys names a key twice".toList }
  else
    match read with
    | .error message => { code := 1, error := "cannot read ".toList ++ file ++ ": ".toList ++ message }
    | .ok text =>
      match wrongKey file (parse text) keys with
      | some message => { code := 2, error := message }
      | none =>
        match wrongName pre keys with
        | some message => { code := 2, error := message }
        | none =>
          match tags.mapM parse_tag with
          | .error message => { code := 2, error := message }
          | .ok _ => storing answer (parse text) pre tags keys [] []

end Stablemate.Dotenv
