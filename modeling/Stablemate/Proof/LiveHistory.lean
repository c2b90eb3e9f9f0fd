import Stablemate.Lib.Newest
import Stablemate.Model.LiveHistory

/-!
# A transcript that is fed in pieces

* `lines_append`: what a chunk adds to the complete lines.
* `Follows`: a history that was trimmed on the way, against one that was not.
* `takeLines_rows`: the rows of the whole stream, and what is merged into them.
* `feed_split`: **where each later update finds its call's row among the newest rows, the history does not
  depend on the split**.
-/

namespace Stablemate.LiveHistory

open Json (Fields)
open PyJson (PyFloat)

variable {env : Env} {slug : Text} {limit : ℤ} {a i h h' : History} {p d stream line : List ℕ} {before ls : List (List ℕ)}
  {update metadata : Fields} {rows old new : List Row} {start : ℤ}

/-! ## Lines -/

/-- The complete lines of what came. -/
def linesOf (p : List ℕ) : List (List ℕ) := (p.splitOn 10).dropLast

/-- What came after the last newline. -/
def tailOf (p : List ℕ) : List ℕ := (p.splitOn 10).getLast?.getD []

/-- The bytes of lines with their newlines. -/
def span (ls : List (List ℕ)) : ℤ := (ls.map fun line => (line.length : ℤ) + 1).sum

theorem pieces_eq (p : List ℕ) : p.splitOn 10 = linesOf p ++ [tailOf p] := by
  have hne := List.splitOn_ne_nil 10 p
  unfold linesOf tailOf
  rw [List.getLast?_eq_some_getLast hne, Option.getD_some, List.dropLast_append_getLast]

theorem linesOf_of_eq {t : List ℕ} (h : p.splitOn 10 = ls ++ [t]) : linesOf p = ls ∧ tailOf p = t := by
  unfold linesOf tailOf
  rw [h, List.dropLast_concat, List.getLast?_concat]
  exact ⟨rfl, rfl⟩

/-- Splitting goes on where it stopped. -/
theorem splitOn_append (p d : List ℕ) : (p ++ d).splitOn 10 = linesOf p ++ (tailOf p ++ d).splitOn 10 := by
  induction p with
  | nil => rfl
  | cons x p ih =>
    have hpieces := pieces_eq p
    by_cases hx : x = 10
    · subst hx
      have hcons := List.splitOn_append_cons_self (a := 10) [] p
      have hcons' := List.splitOn_append_cons_self (a := 10) [] (p ++ d)
      rw [List.nil_append] at hcons hcons'
      obtain ⟨hlines, htail⟩ := linesOf_of_eq (show (10 :: p).splitOn 10 = ([] :: linesOf p) ++ [tailOf p] by rw [hcons, hpieces]; rfl)
      rw [List.cons_append, hcons', ih, hlines, htail]
      rfl
    · have hcons : ∀ q : List ℕ, (x :: q).splitOn 10 = (q.splitOn 10).modifyHead (x :: ·) := fun q => by
        rw [List.splitOn_cons_eq_if_modifyHead, if_neg (by simpa using hx)]
      cases hls : linesOf p with
      | nil =>
        rw [hls] at ih hpieces
        obtain ⟨hlines, htail⟩ := linesOf_of_eq (show (x :: p).splitOn 10 = [] ++ [x :: tailOf p] by rw [hcons, hpieces]; rfl)
        rw [List.cons_append, hcons, ih, hlines, htail, List.cons_append, hcons]
        rfl
      | cons l ls =>
        rw [hls] at ih hpieces
        obtain ⟨hlines, htail⟩ := linesOf_of_eq (show (x :: p).splitOn 10 = ((x :: l) :: ls) ++ [tailOf p] by rw [hcons, hpieces]; rfl)
        rw [List.cons_append, hcons, ih, hlines, htail]
        rfl

theorem lines_append (p d : List ℕ) : linesOf (p ++ d) = linesOf p ++ linesOf (tailOf p ++ d) ∧ tailOf (p ++ d) = tailOf (tailOf p ++ d) := by
  refine linesOf_of_eq ?_
  rw [splitOn_append, pieces_eq (tailOf p ++ d), List.append_assoc]

/-- The lines and the tail are all that came. -/
theorem length_eq (p : List ℕ) : (p.length : ℤ) = span (linesOf p) + (tailOf p).length := by
  have hspan : ∀ (ls : List (List ℕ)) (t : List ℕ), (([10].intercalate (ls ++ [t])).length : ℤ) = span ls + t.length := by
    intro ls t
    induction ls with
    | nil => simp [span]
    | cons l ls ih =>
      obtain ⟨x, xs, hxs⟩ := List.exists_cons_of_ne_nil (show ls ++ [t] ≠ [] by simp)
      rw [List.cons_append, hxs, List.intercalate_cons_cons, ← hxs, List.length_append, List.length_append]
      unfold span at ih ⊢
      rw [List.map_cons, List.sum_cons, Nat.cast_add, Nat.cast_add, ih]
      simp
      omega
  have hpieces : List.intercalate [10] (p.splitOn 10) = p := List.intercalate_splitOn 10
  rw [pieces_eq] at hpieces
  rw [← hspan, hpieces]

theorem span_append (ls ls' : List (List ℕ)) : span (ls ++ ls') = span ls + span ls' := by
  unfold span
  rw [List.map_append, List.sum_append]

theorem takeLines_append (env : Env) (slug : Text) (ls ls' : List (List ℕ)) : ∀ (h : History) (start : ℤ),
    takeLines env slug h start (ls ++ ls') =
      (takeLines env slug h start ls).bind fun h => takeLines env slug h (start + span ls) ls' := by
  induction ls with
  | nil =>
    intro h start
    simp [takeLines, span]
  | cons line ls ih =>
    intro h start
    have hspan : start + line.length + 1 + span ls = start + span (line :: ls) := by
      unfold span
      rw [List.map_cons, List.sum_cons]
      omega
    rw [List.cons_append, takeLines, takeLines, Option.bind_assoc]
    refine congrArg _ (funext fun h => ?_)
    rw [ih, hspan]

/-! ## The newest rows -/

/-- The rows that are kept. -/
def kept (limit : ℤ) (rows : List Row) : List Row := lastRows limit (sorted rows)

/-- The time of a row is no NaN. -/
def Timed (row : Row) : Prop := row.ts ≠ .nan

abbrev before' (a b : Row) : Prop := PyFloat.lt b.ts a.ts = false

/-- The place of a float among the others. -/
def place : PyFloat → WithBot (WithTop ℚ)
  | .negInf => ⊥
  | .fin value _ => ((value : WithTop ℚ) : WithBot (WithTop ℚ))
  | .inf => ((⊤ : WithTop ℚ) : WithBot (WithTop ℚ))
  | .nan => ⊥

theorem lt_eq_place {x y : PyFloat} (hx : x ≠ .nan) (hy : y ≠ .nan) : PyFloat.lt x y = decide (place x < place y) := by
  cases x <;> cases y <;> simp_all [PyFloat.lt, place, -WithBot.coe_top]

theorem orders : Newest.Orders before' Timed where
  total a b ha hb := by
    unfold before'
    rw [lt_eq_place ha hb, lt_eq_place hb ha, decide_eq_false_iff_not, decide_eq_false_iff_not, not_lt, not_lt]
    exact le_total _ _
  trans a b c ha hb hc := by
    unfold before'
    rw [lt_eq_place hb ha, lt_eq_place hc hb, lt_eq_place hc ha, decide_eq_false_iff_not, decide_eq_false_iff_not,
      decide_eq_false_iff_not, not_lt, not_lt, not_lt]
    exact le_trans

/-- As many rows are kept as the limit says, or all for 0. -/
theorem kept_eq (hlimit : 0 ≤ limit) (rows : List Row) :
    kept limit rows = if limit = 0 then sorted rows else Newest.newest before' limit.toNat rows := by
  unfold kept lastRows sorted Newest.newest
  rcases hlimit.lt_or_eq with hpos | rfl
  · rw [if_pos hpos, if_neg hpos.ne', List.length_insertionSort]
  · rfl

theorem kept_append (hlimit : 0 ≤ limit) (hold : ∀ row ∈ old, Timed row) (hnew : ∀ row ∈ new, Timed row) :
    kept limit (kept limit old ++ new) = kept limit (old ++ new) := by
  rw [kept_eq hlimit, kept_eq hlimit, kept_eq hlimit]
  split
  · exact Newest.insertionSort_append orders hold hnew
  · exact Newest.newest_append orders hold hnew

theorem mem_of_kept {row : Row} (hrow : row ∈ kept limit rows) : row ∈ rows := by
  unfold kept lastRows sorted at hrow
  split at hrow
  · exact (List.mem_insertionSort _).1 (List.mem_of_mem_drop hrow)
  · exact (List.mem_insertionSort _).1 (List.mem_of_mem_drop hrow)

theorem mem_kept_append (hlimit : 0 ≤ limit) (hold : ∀ row ∈ old, Timed row) (hnew : ∀ row ∈ new, Timed row) {row : Row}
    (hrow : row ∈ kept limit (old ++ new)) : row ∈ kept limit old ++ new := by
  rw [← kept_append hlimit hold hnew] at hrow
  exact mem_of_kept hrow

theorem ts_take (update : Fields) (id : ℕ) (row : Row) : (Row.take update id row).ts = row.ts := by
  unfold Row.take
  split <;> rfl

theorem id_take (update : Fields) (id : ℕ) (row : Row) : (Row.take update id row).id = row.id := by
  unfold Row.take
  split <;> rfl

/-- A merged update moves no row. -/
theorem kept_map (hlimit : 0 ≤ limit) (update : Fields) (id : ℕ) (rows : List Row) :
    kept limit (rows.map (Row.take update id)) = (kept limit rows).map (Row.take update id) := by
  have hsame : ∀ a b : Row, before' a b ↔ before' (Row.take update id a) (Row.take update id b) := fun a b => by
    unfold before'
    rw [ts_take, ts_take]
  rw [kept_eq hlimit, kept_eq hlimit]
  split
  · unfold sorted
    exact (List.map_insertionSort _ _ _ rows fun a _ b _ => hsame a b).symm
  · exact Newest.newest_map hsame _ rows

/-! ## Against a history that is not trimmed -/

/-- What holds of a history that is fed lines and not trimmed. -/
structure Whole (slug : Text) (i : History) : Prop where
  ids : i.transcript.map (·.id) = List.range i.made
  timed : ∀ row ∈ i.transcript, Timed row
  last : lastTs i slug ≠ .nan
  calls : ∀ call ∈ i.calls, call.2 < i.made
  keys : (i.calls.map (·.1)).Nodup

/-- A history that was trimmed before some of the rows came, and the one that was not. -/
structure Follows (limit : ℤ) (a i : History) : Prop where
  bound : a.transcript_limit = limit
  made : a.made = i.made
  last : a.last_ts = i.last_ts
  rows : ∃ old new, i.transcript = old ++ new ∧ a.transcript = kept limit old ++ new
  calls : a.calls = i.calls.filter fun call => call.2 ∈ a.transcript.map (·.id)

/-- The call's row is among the newest. -/
def Found (limit : ℤ) (i : History) (id : ℕ) : Prop := ∃ row ∈ kept limit i.transcript, row.id = id

theorem Whole.mem_ids (h : Whole slug i) {id : ℕ} : id ∈ i.transcript.map (·.id) ↔ id < i.made := by
  rw [h.ids, List.mem_range]

theorem known_spec (hkeys : (h.calls.map (·.1)).Nodup) {call : Text} {id : ℕ} :
    known h call = some id ↔ call ≠ [] ∧ (call, id) ∈ h.calls := by
  unfold known
  split
  · rename_i hnil
    exact iff_of_false (by simp) fun h => h.1 hnil
  · rename_i hne
    exact ⟨fun hget => ⟨hne, Dict.mem_of_get hget⟩, fun hmem => Dict.get_of_mem hkeys hmem.2⟩

/-- The call of a line is known to both or to neither. -/
theorem Follows.known_eq (hlimit : 0 ≤ limit) (hf : Follows limit a i) (hw : Whole slug i) {call : Text}
    (hfound : ∀ id, known i call = some id → Found limit i id) : known a call = known i call := by
  have hkeys : (a.calls.map (·.1)).Nodup := by
    rw [hf.calls]
    exact hw.keys.sublist (List.filter_sublist.map _)
  refine Option.ext fun id => ?_
  rw [known_spec hkeys, known_spec hw.keys, hf.calls, List.mem_filter]
  refine and_congr_right fun hne => and_iff_left_of_imp fun hmem => ?_
  obtain ⟨row, hrow, hid⟩ := hfound id ((known_spec hw.keys).2 ⟨hne, hmem⟩)
  obtain ⟨old, new, hi, ha⟩ := hf.rows
  rw [hi] at hrow
  have hold : ∀ row ∈ old, Timed row := fun row hr => hw.timed row (hi ▸ List.mem_append_left _ hr)
  have hnew : ∀ row ∈ new, Timed row := fun row hr => hw.timed row (hi ▸ List.mem_append_right _ hr)
  rw [decide_eq_true_eq, ha]
  exact List.mem_map.2 ⟨row, mem_kept_append hlimit hold hnew hrow, hid⟩

/-! ## One more line -/

theorem take_none {key : Text} (hread : read env line = none) : _take_transcript_line env slug h line key = some h := by
  unfold _take_transcript_line
  rw [hread]

theorem take_some {key : Text} (hread : read env line = some (update, metadata))
    (htake : _take_transcript_line env slug h line key = some h') :
    ∃ ts, tsOf env metadata (lastTs h slug) = some ts ∧
      ((∃ id, known h (callOf env update) = some id ∧ h' = merged slug h ts update id) ∨
        known h (callOf env update) = none ∧ h' = added env slug h key ts update metadata) := by
  unfold _take_transcript_line at htake
  rw [hread] at htake
  obtain ⟨ts, hts, heq⟩ := Option.map_eq_some_iff.1 htake
  refine ⟨ts, hts, ?_⟩
  cases hknown : known h (callOf env update) with
  | some id =>
    rw [hknown] at heq
    exact .inl ⟨id, rfl, heq.symm⟩
  | none =>
    rw [hknown] at heq
    exact .inr ⟨rfl, heq.symm⟩

theorem take_merged {key : Text} {ts : PyFloat} {id : ℕ} (hread : read env line = some (update, metadata))
    (hts : tsOf env metadata (lastTs h slug) = some ts) (hknown : known h (callOf env update) = some id) :
    _take_transcript_line env slug h line key = some (merged slug h ts update id) := by
  unfold _take_transcript_line
  rw [hread]
  dsimp only
  rw [hts, hknown]
  rfl

theorem take_added {key : Text} {ts : PyFloat} (hread : read env line = some (update, metadata))
    (hts : tsOf env metadata (lastTs h slug) = some ts) (hknown : known h (callOf env update) = none) :
    _take_transcript_line env slug h line key = some (added env slug h key ts update metadata) := by
  unfold _take_transcript_line
  rw [hread]
  dsimp only
  rw [hts, hknown]
  rfl

theorem ids_merged (rows : List Row) (update : Fields) (id : ℕ) : (rows.map (Row.take update id)).map (·.id) = rows.map (·.id) := by
  rw [List.map_map]
  exact List.map_congr_left fun row _ => id_take update id row

theorem last_set (last_ts : List (Text × PyFloat)) (slug : Text) (ts : PyFloat) : (Dict.get (Dict.set last_ts slug ts) slug) = some ts := by
  rw [Dict.get_set, if_pos rfl]

theorem Whole.merged (hw : Whole slug i) {ts : PyFloat} (hts : ts ≠ .nan) (update : Fields) (id : ℕ) :
    Whole slug (merged slug i ts update id) := by
  refine ⟨(ids_merged _ update id).trans hw.ids, fun row hrow => ?_, ?_, hw.calls, hw.keys⟩
  · obtain ⟨row', hrow', rfl⟩ := List.mem_map.1 hrow
    unfold Timed
    rw [ts_take]
    exact hw.timed row' hrow'
  · unfold lastTs LiveHistory.merged
    rw [last_set]
    exact hts

theorem Whole.added (hw : Whole slug i) {ts : PyFloat} (hts : ts ≠ .nan) (key : Text) (update metadata : Fields) :
    Whole slug (added env slug i key ts update metadata) := by
  unfold LiveHistory.added
  refine ⟨?_, fun row hrow => ?_, ?_, fun call hcall => ?_, ?_⟩
  · dsimp only
    rw [List.map_append, hw.ids, List.range_succ]
    rfl
  · rcases List.mem_append.1 hrow with hrow | hrow
    · exact hw.timed row hrow
    · obtain rfl := List.mem_singleton.1 hrow
      exact hts
  · unfold lastTs
    rw [last_set]
    exact hts
  · dsimp only at hcall ⊢
    split at hcall
    · have := hw.calls call hcall
      omega
    · have hget := Dict.get_of_mem (Dict.nodup_set hw.keys _ _) hcall
      rw [Dict.get_set] at hget
      split at hget
      · rw [← Option.some.inj hget]
        omega
      · have := hw.calls _ (Dict.mem_of_get hget)
        dsimp only at this
        omega
  · dsimp only
    split
    · exact hw.keys
    · exact Dict.nodup_set hw.keys _ _

theorem Follows.merged (hlimit : 0 ≤ limit) (hf : Follows limit a i) (ts : PyFloat) (update : Fields) (id : ℕ) :
    Follows limit (merged slug a ts update id) (merged slug i ts update id) := by
  obtain ⟨old, new, hi, ha⟩ := hf.rows
  unfold LiveHistory.merged
  refine ⟨hf.bound, hf.made, by rw [hf.last], ⟨old.map (Row.take update id), new.map (Row.take update id), ?_, ?_⟩, ?_⟩
  · dsimp only
    rw [hi, List.map_append]
  · dsimp only
    rw [ha, List.map_append, kept_map hlimit]
  · dsimp only
    rw [ids_merged]
    exact hf.calls

theorem Follows.added (hf : Follows limit a i) (hw : Whole slug i) (hknown : known i (callOf env update) = none)
    (key : Text) (ts : PyFloat) (metadata : Fields) :
    Follows limit (added env slug a key ts update metadata) (added env slug i key ts update metadata) := by
  obtain ⟨old, new, hi, ha⟩ := hf.rows
  unfold LiveHistory.added
  rw [hf.made]
  refine ⟨hf.bound, rfl, by rw [hf.last], ⟨old, new ++ [newRow env slug i.made key ts update metadata], ?_, ?_⟩, ?_⟩
  · dsimp only
    rw [hi, List.append_assoc]
  · dsimp only
    rw [ha, List.append_assoc]
  · dsimp only
    have hold : i.calls.filter (fun call => call.2 ∈ (a.transcript ++
        [newRow env slug i.made key ts update metadata]).map (·.id)) = a.calls := by
      rw [hf.calls]
      refine List.filter_congr fun call hcall => ?_
      have := hw.calls call hcall
      rw [decide_eq_decide, List.map_append, List.mem_append]
      have hid : call.2 ≠ (newRow env slug i.made key ts update metadata).id := by
        unfold newRow
        dsimp only
        omega
      simp only [List.map_cons, List.map_nil, List.mem_singleton, hid, or_false]
    split
    · exact hold.symm
    · rename_i hne
      have hnew : callOf env update ∉ i.calls.map (·.1) := by
        unfold known at hknown
        rw [if_neg hne] at hknown
        exact Dict.get_eq_none_iff.1 hknown
      have hnew' : callOf env update ∉ a.calls.map (·.1) := by
        rw [hf.calls]
        exact fun hmem => hnew ((List.filter_sublist.map _).subset hmem)
      rw [Dict.set_of_not_mem hnew, Dict.set_of_not_mem hnew', List.filter_append, hold]
      refine congrArg _ (List.filter_eq_self.2 fun call hcall => ?_).symm
      obtain rfl := List.mem_singleton.1 hcall
      simp [newRow]

/-! ## Many lines -/

/-- The time that a line says is a number. -/
def GoodTime (env : Env) (line : List ℕ) : Prop := ∀ update metadata, read env line = some (update, metadata) →
  (Json.get metadata "ts".toList).truthy = true → ∃ ts, env.float (Json.get metadata "ts".toList) = some ts ∧ ts ≠ .nan

/-- Each later update of a call finds the call's row among the newest rows of the lines before it. -/
structure Settled (env : Env) (limit : ℤ) (slug : Text) (lines : List (List ℕ)) : Prop where
  nonneg : 0 ≤ limit
  timed : ∀ line ∈ lines, GoodTime env line
  found : ∀ before line after, lines = before ++ line :: after → ∀ h, takeLines env slug (fresh limit) 0 before = some h →
    ∀ update metadata, read env line = some (update, metadata) → ∀ id, known h (callOf env update) = some id → Found limit h id

theorem tsOf_spec (htime : GoodTime env line) (hread : read env line = some (update, metadata)) (hlast : lastTs i slug ≠ .nan) :
    ∃ ts, tsOf env metadata (lastTs i slug) = some ts ∧ ts ≠ .nan := by
  unfold tsOf
  split
  · rename_i htruthy
    exact htime update metadata hread htruthy
  · exact ⟨_, rfl, hlast⟩

theorem whole_fresh (slug : Text) (limit : ℤ) : Whole slug (fresh limit) :=
  ⟨rfl, fun _ h => (nomatch h), PyFloat.noConfusion, fun _ h => (nomatch h), List.nodup_nil⟩

theorem take_follows (hlimit : 0 ≤ limit) (hf : Follows limit a i) (hw : Whole slug i) (key : Text) (htime : GoodTime env line)
    (hfound : ∀ update metadata, read env line = some (update, metadata) → ∀ id, known i (callOf env update) = some id → Found limit i id) :
    ∃ i' a', _take_transcript_line env slug i line key = some i' ∧ _take_transcript_line env slug a line key = some a' ∧
      Whole slug i' ∧ Follows limit a' i' := by
  cases hread : read env line with
  | none => exact ⟨i, a, take_none hread, take_none hread, hw, hf⟩
  | some read =>
    obtain ⟨update, metadata⟩ := read
    obtain ⟨ts, hts, hnan⟩ := tsOf_spec htime hread hw.last
    have hknown := hf.known_eq hlimit hw (hfound update metadata hread)
    have hts' : tsOf env metadata (lastTs a slug) = some ts := by
      unfold lastTs at hts ⊢
      rw [hf.last]
      exact hts
    cases hcall : known i (callOf env update) with
    | some id =>
      exact ⟨_, _, take_merged hread hts hcall, take_merged hread hts' (hknown.trans hcall), hw.merged hnan update id,
        hf.merged hlimit ts update id⟩
    | none =>
      exact ⟨_, _, take_added hread hts hcall, take_added hread hts' (hknown.trans hcall), hw.added hnan key update metadata,
        hf.added hw hcall key ts metadata⟩

/-- **The two histories go on together** over lines that are settled. -/
theorem takeLines_follows (ls : List (List ℕ)) : ∀ {before after : List (List ℕ)} {a i : History},
    Settled env limit slug (before ++ ls ++ after) → takeLines env slug (fresh limit) 0 before = some i → Whole slug i → Follows limit a i →
    ∃ i' a', takeLines env slug (fresh limit) 0 (before ++ ls) = some i' ∧ takeLines env slug a (span before) ls = some a' ∧
      Whole slug i' ∧ Follows limit a' i' := by
  induction ls with
  | nil =>
    intro before after a i _ hi hw hf
    exact ⟨i, a, by rw [List.append_nil]; exact hi, rfl, hw, hf⟩
  | cons line ls ih =>
    intro before after a i hs hi hw hf
    have hlines : before ++ line :: ls ++ after = before ++ line :: (ls ++ after) := by simp
    obtain ⟨i', a', hi', ha', hw', hf'⟩ := take_follows hs.nonneg hf hw (keyOf slug (span before)) (hs.timed line (by simp))
      (hs.found before line _ hlines i hi)
    have hspan : span before + line.length + 1 = span (before ++ [line]) := by
      rw [span_append]
      unfold span
      simp
      omega
    have hnext : takeLines env slug (fresh limit) 0 (before ++ [line]) = some i' := by
      rw [takeLines_append, hi, Option.bind_some, zero_add, takeLines, hi']
      rfl
    obtain ⟨i'', a'', hi'', ha'', hw'', hf''⟩ := ih (show Settled env limit slug (before ++ [line] ++ ls ++ after) by simpa using hs) hnext hw' hf'
    refine ⟨i'', a'', by simpa using hi'', ?_, hw'', hf''⟩
    rw [takeLines, ha', Option.bind_some, hspan]
    exact ha''

/-- A line changes neither the limit nor what is noted of the bytes. -/
theorem frame_takeLines (ls : List (List ℕ)) : ∀ {h h' : History} {start : ℤ}, takeLines env slug h start ls = some h' →
    h'.transcript_limit = h.transcript_limit ∧ h'.offsets = h.offsets ∧ h'.partials = h.partials := by
  induction ls with
  | nil =>
    intro h h' start hrun
    obtain rfl := Option.some.inj hrun
    exact ⟨rfl, rfl, rfl⟩
  | cons line ls ih =>
    intro h h' start hrun
    obtain ⟨next, hnext, hrun⟩ := Option.bind_eq_some_iff.1 hrun
    obtain ⟨hlimit, hoffsets, hpartials⟩ := ih hrun
    have hframe : next.transcript_limit = h.transcript_limit ∧ next.offsets = h.offsets ∧ next.partials = h.partials := by
      cases hread : read env line with
      | none =>
        rw [take_none hread] at hnext
        obtain rfl := Option.some.inj hnext
        exact ⟨rfl, rfl, rfl⟩
      | some read =>
        obtain ⟨update, metadata⟩ := read
        obtain ⟨ts, -, ⟨id, -, rfl⟩ | ⟨-, rfl⟩⟩ := take_some hread hnext
        · exact ⟨rfl, rfl, rfl⟩
        · exact ⟨rfl, rfl, rfl⟩
    exact ⟨hlimit.trans hframe.1, hoffsets.trans hframe.2.1, hpartials.trans hframe.2.2⟩

/-! ## Trimming -/

theorem Follows.trim (hlimit : 0 ≤ limit) (hf : Follows limit a i) (hw : Whole slug i) :
    (trim a).transcript = kept limit i.transcript ∧
      (trim a).calls = i.calls.filter fun call => call.2 ∈ (kept limit i.transcript).map (·.id) := by
  obtain ⟨old, new, hi, ha⟩ := hf.rows
  have hold : ∀ row ∈ old, Timed row := fun row hr => hw.timed row (hi ▸ List.mem_append_left _ hr)
  have hnew : ∀ row ∈ new, Timed row := fun row hr => hw.timed row (hi ▸ List.mem_append_right _ hr)
  have hkept : lastRows a.transcript_limit (sorted a.transcript) = kept limit i.transcript := by
    rw [hf.bound, ha, hi]
    exact kept_append hlimit hold hnew
  unfold LiveHistory.trim
  refine ⟨hkept, ?_⟩
  dsimp only
  rw [hkept, hf.calls, List.filter_filter]
  refine List.filter_congr fun call _ => ?_
  rw [← Bool.decide_and, decide_eq_decide]
  refine and_iff_left_of_imp fun hmem => ?_
  obtain ⟨row, hrow, hid⟩ := List.mem_map.1 hmem
  rw [hi] at hrow
  rw [ha]
  exact List.mem_map.2 ⟨row, mem_kept_append hlimit hold hnew hrow, hid⟩

/-! ## Calls -/

/-- The history after the bytes `p`, from the one that was not trimmed. -/
def resultOf (limit : ℤ) (slug : Text) (i : History) (p : List ℕ) : History where
  transcript_limit := limit
  transcript := kept limit i.transcript
  offsets := [(slug, p.length)]
  partials := if tailOf p = [] then [] else [(slug, tailOf p)]
  calls := i.calls.filter fun call => call.2 ∈ (kept limit i.transcript).map (·.id)
  last_ts := i.last_ts
  made := i.made

/-- Between two calls. -/
structure Ready (env : Env) (limit : ℤ) (slug : Text) (p : List ℕ) (h i : History) : Prop where
  whole : takeLines env slug (fresh limit) 0 (linesOf p) = some i ∧ Whole slug i
  follows : Follows limit h i
  offsets : h.offsets = [] ∧ p = [] ∨ h.offsets = [(slug, (p.length : ℤ))]
  partials : h.partials = if tailOf p = [] then [] else [(slug, tailOf p)]

theorem ready_fresh (env : Env) (limit : ℤ) (slug : Text) : Ready env limit slug [] (fresh limit) (fresh limit) := by
  have hnil : kept limit [] = [] := List.eq_nil_iff_forall_not_mem.2 fun row hrow => (nomatch mem_of_kept hrow)
  exact ⟨⟨rfl, whole_fresh slug limit⟩, ⟨rfl, rfl, rfl, ⟨[], [], rfl, by rw [hnil]; rfl⟩, rfl⟩, .inl ⟨rfl, rfl⟩, rfl⟩

theorem ready_resultOf (hi : takeLines env slug (fresh limit) 0 (linesOf p) = some i) (hw : Whole slug i) :
    Ready env limit slug p (resultOf limit slug i p) i := by
  refine ⟨⟨hi, hw⟩, ⟨rfl, rfl, rfl, ⟨i.transcript, [], ?_, ?_⟩, rfl⟩, .inr rfl, rfl⟩
  · rw [List.append_nil]
  · rw [List.append_nil]
    rfl

/-- **One call** goes on from the bytes before it. -/
theorem feed_ready {rest : List ℕ} (hs : Settled env limit slug (linesOf (p ++ d ++ rest))) (hr : Ready env limit slug p h i) :
    ∃ i', feed_transcript env slug d h = some (resultOf limit slug i' (p ++ d)) ∧
      Ready env limit slug (p ++ d) (resultOf limit slug i' (p ++ d)) i' := by
  obtain ⟨hlines, htail⟩ := lines_append p d
  have hheld : (Dict.get h.partials slug).getD [] = tailOf p := by
    rw [hr.partials]
    split
    · rename_i hnil
      rw [hnil]
      rfl
    · simp [Dict.get_cons]
  have hoffset : (Dict.get h.offsets slug).getD 0 = p.length := by
    rcases hr.offsets with ⟨hnil, rfl⟩ | hoffsets
    · rw [hnil]
      rfl
    · rw [hoffsets]
      simp [Dict.get_cons]
  have hset : Dict.set h.offsets slug ((p.length : ℤ) + d.length) = [(slug, ((p ++ d).length : ℤ))] := by
    rw [List.length_append, Nat.cast_add]
    rcases hr.offsets with ⟨hnil, rfl⟩ | hoffsets
    · rw [hnil]
      rfl
    · rw [hoffsets]
      simp [Dict.set, Keyed.upsert]
  have hpop : Dict.pop h.partials slug = [] := by
    rw [hr.partials]
    split
    · rfl
    · simp [Dict.pop]
  have hstart : (p.length : ℤ) - (tailOf p).length = span (linesOf p) := by
    have := length_eq p
    omega
  -- the lines that are complete now, for the history at hand and for the one that is not trimmed
  have hsettled : Settled env limit slug (linesOf p ++ linesOf (tailOf p ++ d) ++ linesOf (tailOf (p ++ d) ++ rest)) := by
    rw [← hlines, ← (lines_append (p ++ d) rest).1]
    exact hs
  have hf : Follows limit { h with offsets := [(slug, ((p ++ d).length : ℤ))],
                                   partials := if tailOf (p ++ d) = [] then [] else [(slug, tailOf (p ++ d))] } i :=
    ⟨hr.follows.bound, hr.follows.made, hr.follows.last, hr.follows.rows, hr.follows.calls⟩
  obtain ⟨i', a', hi', ha', hw', hf'⟩ := takeLines_follows _ hsettled hr.whole.1 hr.whole.2 hf
  rw [← hlines] at hi'
  obtain ⟨-, hoffsets, hpartials⟩ := frame_takeLines _ ha'
  obtain ⟨htranscript, hcalls⟩ := hf'.trim hs.nonneg hw'
  refine ⟨i', ?_, ready_resultOf hi' hw'⟩
  have htrimmed : trim a' = resultOf limit slug i' (p ++ d) := by
    have hfields : trim a' = ⟨a'.transcript_limit, (trim a').transcript, a'.offsets, a'.partials, (trim a').calls, a'.last_ts, a'.made⟩ := rfl
    rw [hfields, htranscript, hcalls, hf'.bound, hf'.last, hf'.made, hoffsets, hpartials]
    rfl
  unfold feed_transcript
  dsimp only
  rw [hheld, hoffset, hset, hpop, hstart]
  have htail' : ((tailOf p ++ d).splitOn 10).getLast?.getD [] = tailOf (p ++ d) := htail.symm
  have hset' : (if tailOf (p ++ d) = [] then ([] : List (Text × List ℕ)) else Dict.set [] slug (tailOf (p ++ d))) =
      if tailOf (p ++ d) = [] then [] else [(slug, tailOf (p ++ d))] := rfl
  rw [htail', hset']
  change (takeLines env slug _ (span (linesOf p)) (linesOf (tailOf p ++ d))).map trim = _
  rw [ha', Option.map_some, htrimmed]

theorem feedAll_ready (chunks : List (List ℕ)) : ∀ {p : List ℕ} {h i : History},
    Settled env limit slug (linesOf (p ++ chunks.flatten)) → Ready env limit slug p h i → chunks ≠ [] →
    ∃ i', feedAll env slug h chunks = some (resultOf limit slug i' (p ++ chunks.flatten)) ∧
      takeLines env slug (fresh limit) 0 (linesOf (p ++ chunks.flatten)) = some i' := by
  induction chunks with
  | nil => exact fun _ _ hne => absurd rfl hne
  | cons d chunks ih =>
    intro p h i hs hr _
    rw [List.flatten_cons, ← List.append_assoc] at hs ⊢
    obtain ⟨i', hfeed, hr'⟩ := feed_ready hs hr
    unfold feedAll at ih ⊢
    rw [List.foldlM_cons, hfeed]
    cases chunks with
    | nil => exact ⟨i', by rw [List.flatten_nil, List.append_nil]; rfl, by rw [List.flatten_nil, List.append_nil]; exact hr'.whole.1⟩
    | cons d' chunks => exact ih hs hr' (List.cons_ne_nil d' chunks)

/-! ## The rows of a stream -/

/-- The updates of a call in some lines. -/
def laterOf (env : Env) (call : Text) (lines : List (List ℕ)) : List Fields :=
  lines.filterMap fun line => ((read env line).map Prod.fst).filter fun update => callOf env update = call

/-- The key and the update of each row: a line has a row of its own unless it goes on with a call that was
seen, and what goes on with a call is merged into the call's row. -/
def rowsOf (env : Env) (slug : Text) : List Text → ℤ → List (List ℕ) → List (Text × Fields)
  | _, _, [] => []
  | seen, start, line :: lines =>
    match read env line with
    | none => rowsOf env slug seen (start + line.length + 1) lines
    | some (update, _) =>
      if callOf env update = [] then (keyOf slug start, update) :: rowsOf env slug seen (start + line.length + 1) lines
      else if callOf env update ∈ seen then rowsOf env slug seen (start + line.length + 1) lines
      else (keyOf slug start, (laterOf env (callOf env update) lines).foldl merge update) ::
        rowsOf env slug (seen ++ [callOf env update]) (start + line.length + 1) lines

/-- The updates in some lines that go to the row `id`. -/
def laterFor (env : Env) (h : History) (id : ℕ) (lines : List (List ℕ)) : List Fields :=
  lines.filterMap fun line => ((read env line).map Prod.fst).filter fun update => known h (callOf env update) = some id

/-- What is to come of a row. -/
def toCome (env : Env) (h : History) (lines : List (List ℕ)) (row : Row) : Text × Fields :=
  (row.key, (laterFor env h row.id lines).foldl merge row.update)

theorem laterFor_none (hread : read env line = none) (id : ℕ) (ls : List (List ℕ)) :
    laterFor env h id (line :: ls) = laterFor env h id ls := by
  unfold laterFor
  rw [List.filterMap_cons_none (by rw [hread]; rfl)]

theorem laterFor_some (hread : read env line = some (update, metadata)) (id : ℕ) (ls : List (List ℕ)) :
    laterFor env h id (line :: ls) =
      if known h (callOf env update) = some id then update :: laterFor env h id ls else laterFor env h id ls := by
  unfold laterFor
  split
  · rename_i hknown
    rw [List.filterMap_cons_some (b := update) (by rw [hread]; simp [hknown])]
  · rename_i hknown
    rw [List.filterMap_cons_none (by rw [hread]; simp [hknown])]

theorem laterFor_congr {g : History} {id : ℕ} (hsame : ∀ call, known g call = some id ↔ known h call = some id) (ls : List (List ℕ)) :
    laterFor env g id ls = laterFor env h id ls := by
  unfold laterFor
  simp only [hsame]

theorem known_added {key : Text} {ts : PyFloat} (call : Text) :
    known (added env slug h key ts update metadata) call =
      if call ≠ [] ∧ call = callOf env update then some h.made else known h call := by
  unfold known added
  dsimp only
  by_cases hcall : call = []
  · rw [if_pos hcall, if_neg (by simp [hcall]), if_pos hcall]
  · rw [if_neg hcall, if_neg hcall]
    by_cases hown : callOf env update = []
    · rw [if_pos hown, if_neg fun h => h.1 (h.2.trans hown)]
    · rw [if_neg hown, Dict.get_set]
      by_cases heq : callOf env update = call
      · rw [if_pos heq, if_pos ⟨hcall, heq.symm⟩]
      · rw [if_neg heq, if_neg fun h => heq h.2.symm]

/-- **The rows of the whole stream**, after those that were there. -/
theorem takeLines_rows (ls : List (List ℕ)) : ∀ {h h' : History} {start : ℤ}, Whole slug h → (∀ line ∈ ls, GoodTime env line) →
    takeLines env slug h start ls = some h' →
    h'.transcript.map (fun row => (row.key, row.update)) =
      h.transcript.map (toCome env h ls) ++ rowsOf env slug (h.calls.map (·.1)) start ls := by
  induction ls with
  | nil =>
    intro h h' start _ _ hrun
    obtain rfl := Option.some.inj hrun
    rw [rowsOf, List.append_nil]
    rfl
  | cons line ls ih =>
    intro h h' start hw htimes hrun
    obtain ⟨htime, htimes⟩ := List.forall_mem_cons.1 htimes
    obtain ⟨next, hnext, hrun⟩ := Option.bind_eq_some_iff.1 hrun
    have hlt : ∀ row ∈ h.transcript, row.id < h.made := fun row hrow => hw.mem_ids.1 (List.mem_map_of_mem hrow)
    unfold rowsOf
    cases hread : read env line with
    | none =>
      rw [take_none hread] at hnext
      obtain rfl := Option.some.inj hnext
      rw [ih hw htimes hrun]
      congr 1
      refine List.map_congr_left fun row _ => ?_
      unfold toCome
      rw [laterFor_none hread]
    | some read =>
      obtain ⟨update, metadata⟩ := read
      dsimp only
      obtain ⟨ts, hts, hcases⟩ := take_some hread hnext
      have hnan : ts ≠ .nan := by
        obtain ⟨ts', hts', hnan⟩ := tsOf_spec htime hread hw.last
        exact Option.some.inj (hts.symm.trans hts') ▸ hnan
      rcases hcases with ⟨id, hknown, rfl⟩ | ⟨hknown, rfl⟩
      · -- the update goes to the row of its call
        have hmem := (known_spec hw.keys).1 hknown
        rw [if_neg hmem.1, if_pos (List.mem_map_of_mem hmem.2), ih (hw.merged hnan update id) htimes hrun]
        have hrows : (merged slug h ts update id).transcript = h.transcript.map (Row.take update id) := rfl
        rw [hrows, List.map_map]
        refine congrArg₂ _ (List.map_congr_left fun row _ => ?_) rfl
        unfold toCome
        rw [Function.comp_apply, id_take, laterFor_some hread, hknown]
        unfold Row.take
        have hsame : laterFor env (merged slug h ts update id) row.id ls = laterFor env h row.id ls := rfl
        by_cases hid : row.id = id
        · rw [if_pos hid, if_pos (congrArg some hid.symm), hsame, List.foldl_cons]
        · rw [if_neg hid, if_neg fun heq => hid (Option.some.inj heq).symm, hsame]
      · have hold : ∀ row ∈ h.transcript, toCome env (added env slug h (keyOf slug start) ts update metadata) ls row =
            toCome env h (line :: ls) row := by
          intro row hrow
          unfold toCome
          rw [laterFor_some hread, hknown, if_neg (by simp), laterFor_congr fun call => ?_]
          rw [known_added]
          split
          · rename_i hcall
            rw [hcall.2, hknown]
            have := hlt row hrow
            exact iff_of_false (fun heq => by have := Option.some.inj heq; omega) (by simp)
          · exact Iff.rfl
        have hrows : (added env slug h (keyOf slug start) ts update metadata).transcript =
            h.transcript ++ [newRow env slug h.made (keyOf slug start) ts update metadata] := rfl
        have hnone : ∀ call, known h call ≠ some h.made := by
          intro call heq
          have := hw.calls _ ((known_spec hw.keys).1 heq).2
          dsimp only at this
          omega
        rw [ih (hw.added hnan (keyOf slug start) update metadata) htimes hrun, hrows, List.map_append, List.map_congr_left hold,
          List.append_assoc]
        congr 1
        rw [List.map_singleton, List.singleton_append]
        by_cases hcall : callOf env update = []
        · have hkeys : (added env slug h (keyOf slug start) ts update metadata).calls = h.calls := by
            unfold added
            dsimp only
            rw [if_pos hcall]
          have hnothing : laterFor env (added env slug h (keyOf slug start) ts update metadata) h.made ls = [] := by
            unfold laterFor
            rw [List.filterMap_eq_nil_iff]
            intro line _
            rw [Option.filter_eq_none_iff]
            intro u _
            rw [decide_eq_true_eq, known_added, if_neg fun h => h.1 (h.2.trans hcall)]
            exact hnone _
          rw [if_pos hcall, hkeys]
          unfold toCome newRow
          dsimp only
          rw [hnothing]
          rfl
        · have hnew : callOf env update ∉ h.calls.map (·.1) := by
            unfold known at hknown
            rw [if_neg hcall] at hknown
            exact Dict.get_eq_none_iff.1 hknown
          have hkeys : (added env slug h (keyOf slug start) ts update metadata).calls = h.calls ++ [(callOf env update, h.made)] := by
            unfold added
            dsimp only
            rw [if_neg hcall, Dict.set_of_not_mem hnew]
          have hlater : laterFor env (added env slug h (keyOf slug start) ts update metadata) h.made ls = laterOf env (callOf env update) ls := by
            unfold laterFor laterOf
            refine List.filterMap_congr fun line _ => ?_
            refine congrArg (fun p => Option.filter p _) (funext fun u => ?_)
            rw [decide_eq_decide, known_added]
            split
            · rename_i hown
              exact iff_of_true rfl hown.2
            · rename_i hown
              exact iff_of_false (hnone _) fun heq => hown ⟨heq ▸ hcall, heq⟩
          rw [if_neg hcall, if_neg hnew, hkeys, List.map_append]
          unfold toCome newRow
          dsimp only
          rw [hlater]
          rfl

/-! ## The split -/

/-- What the history tells of the stream. -/
structure Told (env : Env) (limit : ℤ) (slug : Text) (stream : List ℕ) (h : History) : Prop where
  rows : ∃ rows, rows.map (fun row => (row.key, row.update)) = rowsOf env slug [] 0 (linesOf stream) ∧
    h.transcript = lastRows limit (sorted rows)
  offsets : h.offsets = [(slug, (stream.length : ℤ))]
  partials : h.partials = if tailOf stream = [] then [] else [(slug, tailOf stream)]

/-- **The history does not depend on the split**, where the time that a line says is a number and each later
update of a call finds the call's row among the newest rows of the lines before it. -/
theorem feed_split (env : Env) (limit : ℤ) (slug : Text) (stream : List ℕ) (hs : Settled env limit slug (linesOf stream)) :
    ∃ h, Told env limit slug stream h ∧
      ∀ chunks, chunks ≠ [] → chunks.flatten = stream → feedAll env slug (fresh limit) chunks = some h := by
  have hrun : ∀ chunks : List (List ℕ), chunks ≠ [] → chunks.flatten = stream →
      ∃ i, feedAll env slug (fresh limit) chunks = some (resultOf limit slug i stream) ∧
        takeLines env slug (fresh limit) 0 (linesOf stream) = some i := by
    rintro chunks hne rfl
    exact feedAll_ready chunks (p := []) hs (ready_fresh env limit slug) hne
  obtain ⟨i, -, hi⟩ := hrun [stream] (List.cons_ne_nil _ _) (by simp)
  have hrows := takeLines_rows _ (whole_fresh slug limit) hs.timed hi
  refine ⟨resultOf limit slug i stream, ⟨⟨i.transcript, hrows, rfl⟩, rfl, rfl⟩, fun chunks hne hflatten => ?_⟩
  obtain ⟨i', hfeed, hi'⟩ := hrun chunks hne hflatten
  rw [hfeed, Option.some.inj (hi'.symm.trans hi)]

theorem length_takeLines (ls : List (List ℕ)) : ∀ {h h' : History} {start : ℤ}, takeLines env slug h start ls = some h' →
    h'.transcript.length ≤ h.transcript.length + ls.length := by
  induction ls with
  | nil =>
    intro h h' start hrun
    obtain rfl := Option.some.inj hrun
    exact le_refl _
  | cons line ls ih =>
    intro h h' start hrun
    obtain ⟨next, hnext, hrun⟩ := Option.bind_eq_some_iff.1 hrun
    have hle := ih hrun
    have hnext : next.transcript.length ≤ h.transcript.length + 1 := by
      cases hread : read env line with
      | none =>
        rw [take_none hread] at hnext
        obtain rfl := Option.some.inj hnext
        omega
      | some read =>
        obtain ⟨update, metadata⟩ := read
        obtain ⟨ts, -, ⟨id, -, rfl⟩ | ⟨-, rfl⟩⟩ := take_some hread hnext
        · simp [merged]
        · simp [added]
    rw [List.length_cons]
    omega

theorem whole_takeLines (ls : List (List ℕ)) : ∀ {h h' : History} {start : ℤ}, Whole slug h → (∀ line ∈ ls, GoodTime env line) →
    takeLines env slug h start ls = some h' → Whole slug h' := by
  induction ls with
  | nil =>
    intro h h' start hw _ hrun
    obtain rfl := Option.some.inj hrun
    exact hw
  | cons line ls ih =>
    intro h h' start hw htimes hrun
    obtain ⟨htime, htimes⟩ := List.forall_mem_cons.1 htimes
    obtain ⟨next, hnext, hrun⟩ := Option.bind_eq_some_iff.1 hrun
    refine ih ?_ htimes hrun
    cases hread : read env line with
    | none =>
      rw [take_none hread] at hnext
      obtain rfl := Option.some.inj hnext
      exact hw
    | some read =>
      obtain ⟨update, metadata⟩ := read
      obtain ⟨ts', hts', hnan⟩ := tsOf_spec htime hread hw.last
      obtain ⟨ts, hts, hcases⟩ := take_some hread hnext
      obtain rfl := Option.some.inj (hts.symm.trans hts')
      rcases hcases with ⟨id, -, rfl⟩ | ⟨-, rfl⟩
      · exact hw.merged hnan update id
      · exact hw.added hnan _ update metadata

theorem mem_kept_of_few {row : Row} (hfew : limit = 0 ∨ (rows.length : ℤ) ≤ limit) (hrow : row ∈ rows) : row ∈ kept limit rows := by
  have hsorted : row ∈ sorted rows := (List.mem_insertionSort _).2 hrow
  unfold kept lastRows
  rcases hfew with rfl | hfew
  · exact hsorted
  · have hlength : (sorted rows).length = rows.length := List.length_insertionSort _ rows
    split
    · rw [show (sorted rows).length - limit.toNat = 0 by omega]
      exact hsorted
    · rw [show limit.natAbs = 0 by omega]
      exact hsorted

/-- A stream of no more lines than rows are kept is settled. -/
theorem settled_of_few {lines : List (List ℕ)} (hnonneg : 0 ≤ limit) (hfew : limit = 0 ∨ (lines.length : ℤ) ≤ limit)
    (htimed : ∀ line ∈ lines, GoodTime env line) : Settled env limit slug lines := by
  refine ⟨hnonneg, htimed, fun before line after hlines h hrun update metadata _ id hknown => ?_⟩
  have hlength := length_takeLines _ hrun
  have hw := whole_takeLines _ (whole_fresh slug limit) (fun line hline => htimed line (hlines ▸ List.mem_append_left _ hline)) hrun
  have hid := hw.calls _ ((known_spec hw.keys).1 hknown).2
  obtain ⟨row, hrow, rfl⟩ := List.mem_map.1 (hw.mem_ids.2 hid)
  refine ⟨row, mem_kept_of_few (hfew.imp_right fun hfew => ?_) hrow, rfl⟩
  rw [hlines, List.length_append] at hfew
  have hfresh : (fresh limit).transcript.length = 0 := rfl
  omega

/-! ## A call and its update -/

/-- A line of the transcript of a turn. -/
def lineOf (update : Fields) (ts : ℤ) : Json :=
  .obj [("update".toList, .obj update), ("_meta".toList, .obj [("ts".toList, .word (.int ts))])]

def callLine : Json := lineOf [("sessionUpdate".toList, .str "tool_call".toList), ("toolCallId".toList, .str "t".toList)] 1

def messageLine : Json := lineOf [("sessionUpdate".toList, .str "agent_message_chunk".toList)] 2

def doneLine : Json := lineOf [("sessionUpdate".toList, .str "tool_call_update".toList), ("toolCallId".toList, .str "t".toList)] 3

def bytesOf (v : Json) : List ℕ := Text.utf8 (Json.dumps v)

/-- `json.loads`, `float` and `str` on these lines. -/
def reader : Env where
  loads := fun line =>
    if line = bytesOf callLine then some callLine
    else if line = bytesOf messageLine then some messageLine
    else if line = bytesOf doneLine then some doneLine
    else none
  float := fun x => match x with
    | .word (.int i) => some (.fin i (PyJson.decimal i ++ ".0".toList))
    | _ => none
  str := fun x => match x with
    | .str s => s
    | _ => []

theorem feed_split_call : ∃ h, Told reader 2 "001".toList (bytesOf callLine ++ 10 :: (bytesOf doneLine ++ [10])) h ∧
    ∀ chunks, chunks ≠ [] → chunks.flatten = bytesOf callLine ++ 10 :: (bytesOf doneLine ++ [10]) →
      feedAll reader "001".toList (fresh 2) chunks = some h := by
  have hlines : linesOf (bytesOf callLine ++ 10 :: (bytesOf doneLine ++ [10])) = [bytesOf callLine, bytesOf doneLine] := by decide
  refine feed_split reader 2 "001".toList _ (settled_of_few (by decide) (.inr (by rw [hlines]; decide)) fun line hline => ?_)
  rw [hlines] at hline
  intro update metadata hread _
  rcases List.mem_pair.1 hline with rfl | rfl
  · have hcall : read reader (bytesOf callLine) = some
        ([("sessionUpdate".toList, .str "tool_call".toList), ("toolCallId".toList, .str "t".toList)], [("ts".toList, .word (.int 1))]) := rfl
    obtain ⟨-, rfl⟩ := Prod.mk.inj (Option.some.inj (hcall.symm.trans hread))
    exact ⟨_, rfl, PyFloat.noConfusion⟩
  · have hdone : read reader (bytesOf doneLine) = some
        ([("sessionUpdate".toList, .str "tool_call_update".toList), ("toolCallId".toList, .str "t".toList)],
          [("ts".toList, .word (.int 3))]) := rfl
    obtain ⟨-, rfl⟩ := Prod.mk.inj (Option.some.inj (hdone.symm.trans hread))
    exact ⟨_, rfl, PyFloat.noConfusion⟩

/-- **A call whose row was evicted** is not known any more: the update makes a row of its own, or not, as
the stream is cut. -/
theorem cut_matters :
    [bytesOf callLine ++ 10 :: (bytesOf messageLine ++ 10 :: (bytesOf doneLine ++ [10]))].flatten =
        [bytesOf callLine ++ [10], bytesOf messageLine ++ [10], bytesOf doneLine ++ [10]].flatten ∧
      (feedAll reader "001".toList (fresh 1) [bytesOf callLine ++ 10 :: (bytesOf messageLine ++ 10 :: (bytesOf doneLine ++ [10]))]).map
          (fun h => h.transcript.map (·.key)) ≠
        (feedAll reader "001".toList (fresh 1) [bytesOf callLine ++ [10], bytesOf messageLine ++ [10], bytesOf doneLine ++ [10]]).map
          (fun h => h.transcript.map (·.key)) := by
  refine ⟨?_, by decide⟩
  simp only [List.flatten_cons, List.flatten_nil, List.append_nil, List.append_assoc, List.cons_append, List.nil_append]

end Stablemate.LiveHistory
