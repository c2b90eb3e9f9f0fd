import Mathlib.Data.List.Sort
import Stablemate.Lib.Dict
import Stablemate.Model.Json

/-!
# The transcript of a watched run (`groom/live_history.py`)

* `feed_transcript`: the next bytes of one turn's transcript.
* `_take_transcript_line`: one line of it, a new row or an update of a tool call's row.

A row is told from others by the number of rows made before it, which stands for its identity. What
`json.loads`, `float` and `str` answer is an `Env`.
-/

namespace Stablemate.LiveHistory

open Json (Fields)
open PyJson (PyFloat)

structure Env where
  /-- `json.loads`, with `none` for a `ValueError` -/
  loads : List ℕ → Option Json
  /-- `float(x)`, or `none` where it raises -/
  float : Json → Option PyFloat
  /-- `str(x)` -/
  str : Json → Text

structure Row where
  /-- `id(row)` -/
  id : ℕ
  key : Text
  slug : Text
  ts : PyFloat
  node : Text
  parent : Text
  update : Fields

structure History where
  transcript_limit : ℤ
  transcript : List Row
  offsets : List (Text × ℤ)
  /-- `partial` -/
  partials : List (Text × List ℕ)
  calls : List (Text × ℕ)
  last_ts : List (Text × PyFloat)
  /-- How many rows were made. -/
  made : ℕ

/-- `LiveHistory(...)` -/
def fresh (transcript_limit : ℤ) : History := ⟨transcript_limit, [], [], [], [], [], 0⟩

/-! ## A line -/

/-- `str(x or "")` -/
def Env.text (env : Env) (x : Json) : Text := if x.truthy then env.str x else []

/-- What a line says: the update and its `_meta`. -/
def read (env : Env) (line : List ℕ) : Option (Fields × Fields) :=
  match env.loads line with
  | some (.obj record) =>
    if (Json.get record "truncated".toList).truthy then
      some ([("sessionUpdate".toList, .str "truncated".toList), ("bytes".toList, (record.lookup "bytes".toList).getD (.ofNat 0))], [])
    else
      match Json.get record "update".toList,
        if (Json.get record "_meta".toList).truthy then Json.get record "_meta".toList else .obj [] with
      | .obj update, .obj metadata => some (update, metadata)
      | _, _ => none
  | _ => none

/-- `merged.update(update)` -/
def putAll (merged update : Fields) : Fields := update.foldl (fun merged kv => Dict.set merged kv.1 kv.2) merged

/-- What a later update makes of the update of its call's row. -/
def merge (merged update : Fields) : Fields :=
  match Json.get update "sessionUpdate".toList with
  | .str kind =>
    if kind = "tool_call".toList then putAll merged update
    else putAll merged (update.filter fun kv => kv.1 ≠ "sessionUpdate".toList)
  | _ => putAll merged (update.filter fun kv => kv.1 ≠ "sessionUpdate".toList)

/-- `float(meta.get("ts") or last)` -/
def tsOf (env : Env) (metadata : Fields) (last : PyFloat) : Option PyFloat :=
  if (Json.get metadata "ts".toList).truthy then env.float (Json.get metadata "ts".toList) else some last

def callOf (env : Env) (update : Fields) : Text := env.text (Json.get update "toolCallId".toList)

/-- `self.calls.get(call_id) if call_id else None` -/
def known (h : History) (call_id : Text) : Option ℕ := if call_id = [] then none else Dict.get h.calls call_id

/-- The update is merged into the row `id`. -/
def Row.take (update : Fields) (id : ℕ) (row : Row) : Row := if row.id = id then { row with update := merge row.update update } else row

/-- The time of the last line. -/
def lastTs (h : History) (slug : Text) : PyFloat := (Dict.get h.last_ts slug).getD (.fin 0 "0.0".toList)

def merged (slug : Text) (h : History) (ts : PyFloat) (update : Fields) (id : ℕ) : History :=
  { h with last_ts := Dict.set h.last_ts slug ts, transcript := h.transcript.map (Row.take update id) }

/-- `row` -/
def newRow (env : Env) (slug : Text) (id : ℕ) (key : Text) (ts : PyFloat) (update metadata : Fields) : Row where
  id := id
  key := key
  slug := slug
  ts := ts
  node := env.text (Json.get metadata "node".toList)
  parent := env.text (Json.get metadata "parent".toList)
  update := update

def added (env : Env) (slug : Text) (h : History) (key : Text) (ts : PyFloat) (update metadata : Fields) : History :=
  { h with
    last_ts := Dict.set h.last_ts slug ts
    transcript := h.transcript ++ [newRow env slug h.made key ts update metadata]
    calls := if callOf env update = [] then h.calls else Dict.set h.calls (callOf env update) h.made
    made := h.made + 1 }

def _take_transcript_line (env : Env) (slug : Text) (h : History) (line : List ℕ) (key : Text) : Option History :=
  match read env line with
  | none => some h
  | some (update, metadata) =>
    (tsOf env metadata (lastTs h slug)).map fun ts =>
      match known h (callOf env update) with
      | some id => merged slug h ts update id
      | none => added env slug h key ts update metadata

/-! ## Bytes -/

/-- `f"{slug}:{start}"` -/
def keyOf (slug : Text) (start : ℤ) : Text := slug ++ ':' :: PyJson.decimal start

/-- The lines one after the other, with where the next one starts. -/
def takeLines (env : Env) (slug : Text) : History → ℤ → List (List ℕ) → Option History
  | h, _, [] => some h
  | h, start, line :: lines =>
    (_take_transcript_line env slug h line (keyOf slug start)).bind fun h => takeLines env slug h (start + line.length + 1) lines

/-- `rows[-limit:]` -/
def lastRows (limit : ℤ) (rows : List Row) : List Row :=
  if 0 < limit then rows.drop (rows.length - limit.toNat) else rows.drop limit.natAbs

/-- `sorted(rows, key=lambda row: row["ts"])`; with a NaN the order is that of this sort. -/
def sorted (rows : List Row) : List Row := rows.insertionSort fun a b => PyFloat.lt b.ts a.ts = false

/-- The end of `feed_transcript`: the newest rows, and the calls that are among them. -/
def trim (h : History) : History :=
  { h with
    transcript := lastRows h.transcript_limit (sorted h.transcript)
    calls := h.calls.filter fun call => call.2 ∈ (lastRows h.transcript_limit (sorted h.transcript)).map (·.id) }

/-- `feed_transcript`, or `none` where it raises. -/
def feed_transcript (env : Env) (slug : Text) (data : List ℕ) (h : History) : Option History :=
  let held := (Dict.get h.partials slug).getD []
  let start := (Dict.get h.offsets slug).getD 0 - held.length
  let pieces := (held ++ data).splitOn 10
  let tail := pieces.getLast?.getD []
  let rest := Dict.pop h.partials slug
  let opened := { h with
    offsets := Dict.set h.offsets slug ((Dict.get h.offsets slug).getD 0 + data.length)
    partials := if tail = [] then rest else Dict.set rest slug tail }
  (takeLines env slug opened start pieces.dropLast).map trim

/-- Successive calls. -/
def feedAll (env : Env) (slug : Text) (h : History) (chunks : List (List ℕ)) : Option History :=
  chunks.foldlM (fun h data => feed_transcript env slug data h) h

end Stablemate.LiveHistory
