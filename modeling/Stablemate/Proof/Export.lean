import Stablemate.Model.Export
import Stablemate.Proof.Json

/-!
# What the export keeps

* `sessionText_eq`: the pieces of a session's file are the text of one JSON value.
* `foldlM_exportRow`, `good_of_length`: what the loop leaves.
* `lossless_iff`: **the export loses no session exactly if no two go to one file, and nothing keeps
  one from being written**.
-/

namespace Stablemate.Export

open Json (Fields)

variable {env : Env} {row : Row} {rows turns : List Row} {disk : Disk} {index : List Fields} {place : List Text}

/-! ## The text of a session -/

def messagesOf (env : Env) (row : Row) : List Json := ((_transcript_lines env (env.record row)).filterMap _message_of).map .obj

theorem commas_append {ts us : List Text} (ht : ts ≠ []) (hu : us ≠ []) :
    Json.commas (ts ++ us) = Json.commas ts ++ ", ".toList ++ Json.commas us := by
  obtain ⟨t, ts, rfl⟩ := List.exists_cons_of_ne_nil ht
  obtain ⟨u, us, rfl⟩ := List.exists_cons_of_ne_nil hu
  rw [List.cons_append, Json.commas_cons, Json.commas_cons, Json.commas_cons]
  unfold Json.others
  simp only [List.flatMap_append, List.flatMap_cons, List.append_assoc]

theorem dumpsList_append (xs ys : List Json) : Json.dumpsList (xs ++ ys) = Json.dumpsList xs ++ Json.dumpsList ys := by
  induction xs with
  | nil => rfl
  | cons x xs ih => rw [List.cons_append, Json.dumpsList, Json.dumpsList, ih, List.cons_append]

theorem dumpsFields_append (kvs kws : Fields) : Json.dumpsFields (kvs ++ kws) = Json.dumpsFields kvs ++ Json.dumpsFields kws := by
  induction kvs with
  | nil => rfl
  | cons kv kvs ih => rw [List.cons_append, Json.dumpsFields, Json.dumpsFields, ih, List.cons_append]

/-- The loop writes the messages that it has met. -/
theorem foldl_step (entries : List Fields) (p : Progress) (messages : List Json)
    (hout : p.out = Json.commas (Json.dumpsList messages)) (hcount : p.count = messages.length) :
    (entries.foldl Progress.step p).out =
      Json.commas (Json.dumpsList (messages ++ (entries.filterMap _message_of).map .obj)) := by
  induction entries generalizing p messages with
  | nil => simpa using hout
  | cons entry entries ih =>
    rw [List.foldl_cons]
    cases hmessage : _message_of entry with
    | none =>
      rw [List.filterMap_cons_none hmessage]
      refine ih _ messages ?_ ?_ <;> unfold Progress.step <;> rw [hmessage]
      · exact hout
      · exact hcount
    | some message =>
      rw [List.filterMap_cons_some hmessage, List.map_cons, List.append_cons]
      refine ih _ (messages ++ [.obj message]) ?_ ?_ <;> unfold Progress.step <;> rw [hmessage]
      · dsimp only
        rw [dumpsList_append, hout, hcount]
        cases messages with
        | nil => simp [Json.dumpsList, Json.commas]
        | cons x xs =>
          rw [commas_append (by simp [Json.dumpsList]) (by simp [Json.dumpsList]), if_neg (by simp)]
          simp [Json.dumpsList, Json.commas]
      · dsimp only
        rw [hcount, List.length_append, List.length_singleton]

theorem out_progress (env : Env) (row : Row) : (progress env row).out = Json.commas (Json.dumpsList (messagesOf env row)) :=
  foldl_step _ ⟨[], 0, [], []⟩ [] rfl rfl

/-- The value that a session's file holds. -/
def sessionOf (env : Env) (row : Row) (time_created : Text) : Fields :=
  headOf row time_created ++ ("messages".toList, .arr (messagesOf env row)) :: tailOf (progress env row)

/-- **The pieces are the text of one value.** -/
theorem sessionText_eq (env : Env) (row : Row) (time_created : Text) :
    sessionText env row time_created = Json.dumps (.obj (sessionOf env row time_created)) := by
  have hhead : Json.dumpsFields (headOf row time_created) ≠ [] := by unfold headOf; simp [Json.dumpsFields]
  have htail : Json.dumpsFields (tailOf (progress env row)) ≠ [] := by unfold tailOf; simp [Json.dumpsFields]
  have hkey : PyJson.quoted "messages".toList ++ ": ".toList = "\"messages\": ".toList := by decide
  have hopen : (Json.dumps (.obj (headOf row time_created))).dropLast = '{' :: Json.commas (Json.dumpsFields (headOf row time_created)) := by
    rw [Json.dumps, List.dropLast_concat]
  have hclose : (Json.dumps (.obj (tailOf (progress env row)))).tail = Json.commas (Json.dumpsFields (tailOf (progress env row))) ++ ['}'] := rfl
  have hmessages : Json.dumpsFields (("messages".toList, .arr (messagesOf env row)) :: tailOf (progress env row)) =
      [PyJson.quoted "messages".toList ++ ": ".toList ++ ('[' :: Json.commas (Json.dumpsList (messagesOf env row)) ++ [']'])] ++
        Json.dumpsFields (tailOf (progress env row)) := rfl
  unfold sessionText sessionOf
  rw [out_progress, hopen, hclose, Json.dumps, dumpsFields_append, commas_append hhead (by rw [hmessages]; exact List.cons_ne_nil _ _),
    hmessages, commas_append (List.cons_ne_nil _ _) htail, hkey]
  simp [Json.commas]

/-! ## Names -/

theorem isSafe_sub : ∀ (inRun : Bool) (value : Text), ∀ c ∈ sub inRun value, isSafe c = true
  | _, [], c, hc => (nomatch hc)
  | inRun, d :: cs, c, hc => by
    unfold sub at hc
    split_ifs at hc with hsafe
    · rcases List.mem_cons.1 hc with rfl | hc
      · exact hsafe
      · exact isSafe_sub _ cs c hc
    · exact isSafe_sub _ cs c hc
    · rcases List.mem_cons.1 hc with rfl | hc
      · decide
      · exact isSafe_sub _ cs c hc

theorem isSafe_safe {fallback : Text} (hfallback : ∀ c ∈ fallback, isSafe c = true) (value : Text) :
    ∀ c ∈ _safe value fallback, isSafe c = true := by
  intro c hc
  unfold _safe at hc
  dsimp only at hc
  split_ifs at hc
  · exact hfallback c hc
  · unfold stripMarks at hc
    have hc := (List.dropWhile_sublist _).subset (List.mem_reverse.1 hc)
    exact isSafe_sub false value c ((List.dropWhile_sublist _).subset (List.mem_reverse.1 hc))

/-- No name of a session's place has a slash, so that its text leads to it. -/
theorem splitOn_as_posix (row : Row) : (as_posix (relative row)).splitOn '/' = relative row := by
  unfold as_posix
  refine List.splitOn_intercalate '/' (fun name hname hslash => ?_) (List.cons_ne_nil _ _)
  have hstem : ∀ c ∈ stem row ++ ".json".toList, isSafe c = true := by
    intro c hc
    unfold stem at hc
    simp only [List.mem_append] at hc
    rcases hc with ((hc | hc) | hc) | hc
    · exact isSafe_safe (by decide) _ c hc
    · exact (by decide : ∀ c ∈ "__".toList, isSafe c = true) c hc
    · exact isSafe_safe (by decide) _ c hc
    · exact (by decide : ∀ c ∈ ".json".toList, isSafe c = true) c hc
  have hsafe : isSafe '/' = true := by
    unfold relative parent at hname
    simp only [List.cons_append, List.nil_append, List.mem_cons, List.not_mem_nil, or_false] at hname
    rcases hname with rfl | rfl | rfl
    · exact isSafe_safe (by decide) _ _ hslash
    · exact isSafe_safe (by decide) _ _ hslash
    · exact hstem _ hslash
  exact absurd hsafe (by decide)

/-- A file that is being written is never a session's file. -/
theorem partialOf_ne (row row' : Row) : partialOf row ≠ relative row' := by
  intro h
  have hname : stem row ++ ".json.part".toList = stem row' ++ ".json".toList :=
    (List.cons.inj (List.cons.inj (List.cons.inj h).2).2).1
  have hlast := congrArg List.getLast? hname
  rw [List.getLast?_append_of_ne_nil _ (by decide), List.getLast?_append_of_ne_nil _ (by decide)] at hlast
  exact absurd hlast (by decide)

/-! ## The folder -/

/-- What the loop keeps: folders of up to two names, files of three. -/
structure Fine (env : Env) (disk : Disk) : Prop where
  folders : ∀ place ∈ disk.folders, place.length ≤ 2 ∧ env.takes place = true
  files : ∀ place, Dict.get disk.files place ≠ none → place.length = 3

theorem Fine.mkdirs (h : Fine env disk) {places : List (List Text)} (hplaces : ∀ place ∈ places, place.length ≤ 2) :
    ∃ disk', Export.mkdirs env disk places = (disk', places.all env.takes) ∧ Fine env disk' ∧ disk'.files = disk.files ∧
      (places.all env.takes = true → ∀ place, place ∈ disk'.folders ↔ place ∈ disk.folders ∨ place ∈ places) := by
  induction places generalizing disk with
  | nil => exact ⟨disk, rfl, h, rfl, fun _ place => by simp⟩
  | cons place places ih =>
    obtain ⟨hlength, hplaces⟩ := List.forall_mem_cons.1 hplaces
    have hfile : (Dict.get disk.files place).isSome = false := by
      by_contra hsome
      have := h.files place (by simpa using hsome)
      omega
    unfold Export.mkdirs mkdir
    by_cases hin : place ∈ disk.folders
    · obtain ⟨disk', hmade, hfine, hfiles, hfolders⟩ := ih h hplaces
      rw [if_pos hin, List.all_cons, (h.folders place hin).2, Bool.true_and]
      refine ⟨disk', hmade, hfine, hfiles, fun hall p => ?_⟩
      rw [hfolders hall, List.mem_cons]
      constructor
      · rintro (hp | hp)
        · exact .inl hp
        · exact .inr (.inr hp)
      · rintro (hp | rfl | hp)
        · exact .inl hp
        · exact .inl hin
        · exact .inr hp
    · rw [if_neg hin, hfile, List.all_cons]
      cases htakes : env.takes place with
      | false => exact ⟨disk, by simp, h, rfl, fun hall => by simp at hall⟩
      | true =>
        have hfine : Fine env { disk with folders := place :: disk.folders } := by
          refine ⟨fun p hp => ?_, h.files⟩
          rcases List.mem_cons.1 hp with rfl | hp
          · exact ⟨hlength, htakes⟩
          · exact h.folders p hp
        obtain ⟨disk', hmade, hfine', hfiles, hfolders⟩ := ih hfine hplaces
        refine ⟨disk', by simpa using hmade, hfine', hfiles, fun hall p => ?_⟩
        rw [hfolders (by simpa using hall), List.mem_cons, List.mem_cons]
        constructor
        · rintro ((rfl | hp) | hp)
          · exact .inr (.inl rfl)
          · exact .inl hp
          · exact .inr (.inr hp)
        · rintro (hp | rfl | hp)
          · exact .inl (.inr hp)
          · exact .inl (.inl rfl)
          · exact .inr hp

theorem Fine.write (h : Fine env disk) (hlength : place.length = 3) (content : Content) :
    Export.write env disk place content =
      if env.takes place = true then some { disk with files := Dict.set disk.files place content } else none := by
  have hfolder : place ∉ disk.folders := fun hin => by
    have := (h.folders place hin).1
    omega
  unfold Export.write
  cases env.takes place <;> simp [hfolder]

theorem Fine.set (h : Fine env disk) (hlength : place.length = 3) (content : Content) :
    Fine env { disk with files := Dict.set disk.files place content } := by
  refine ⟨h.folders, fun p hp => ?_⟩
  dsimp only at hp
  rw [Dict.get_set] at hp
  split at hp
  · rename_i heq
    exact heq ▸ hlength
  · exact h.files p hp

theorem Fine.pop (h : Fine env disk) (place : List Text) : Fine env { disk with files := Dict.pop disk.files place } := by
  refine ⟨h.folders, fun p hp => ?_⟩
  dsimp only at hp
  rw [Dict.get_pop] at hp
  split at hp
  · exact absurd rfl hp
  · exact h.files p hp

/-! ## One session -/

/-- Nothing keeps the session from being written. -/
structure Good (env : Env) (row : Row) : Prop where
  folders : [(parent row).take 1, parent row].all env.takes = true
  files : env.takes (partialOf row) = true ∧ env.takes (relative row) = true
  timed : _iso env row.ts ≠ none

def timeOf (env : Env) (row : Row) : Text := (_iso env row.ts).getD []

/-- The record of the session in the index. -/
def recordOf (env : Env) (row : Row) : Fields := entryOf env row (timeOf env row) ++ [("path".toList, .str (as_posix (relative row)))]

/-- What a session that is written changes. -/
structure Written (env : Env) (row : Row) (disk disk' : Disk) : Prop where
  fine : Fine env disk'
  here : Dict.get disk'.files (relative row) = some (.text (sessionText env row (timeOf env row)))
  others : ∀ place, place ≠ relative row → place ≠ partialOf row → Dict.get disk'.files place = Dict.get disk.files place
  folders : ∀ place, place ∈ disk'.folders ↔ place ∈ disk.folders ∨ place ∈ [(parent row).take 1, parent row]

theorem written_of_good (h : Fine env disk) (hgood : Good env row) :
    ∃ disk', _write_session env disk row = .written disk' (entryOf env row (timeOf env row)) ∧ Written env row disk disk' := by
  obtain ⟨made, hmade, hfine, hfiles, hfolders⟩ := h.mkdirs (show ∀ place ∈ [(parent row).take 1, parent row], place.length ≤ 2 by simp [parent])
  have hfolders := hfolders hgood.folders
  rw [hgood.folders] at hmade
  have hopened := hfine.set (show (partialOf row).length = 3 from rfl) (.text [])
  obtain ⟨time, htime⟩ := Option.ne_none_iff_exists'.1 hgood.timed
  have htimeOf : timeOf env row = time := by unfold timeOf; rw [htime]; rfl
  have hset := hopened.set (show (relative row).length = 3 from rfl) (.text (sessionText env row time))
  refine ⟨{ made with files := Dict.pop (Dict.set (Dict.set made.files (partialOf row) (.text [])) (relative row)
      (.text (sessionText env row time))) (partialOf row) }, ?_, hset.pop (partialOf row), ?_, fun place hplace hpartial => ?_, hfolders⟩
  · unfold _write_session replace
    rw [hmade]
    dsimp only
    rw [hfine.write rfl, if_pos hgood.files.1]
    dsimp only
    rw [htime]
    dsimp only
    rw [hopened.write rfl, if_pos hgood.files.2, htimeOf]
    rfl
  · dsimp only
    rw [Dict.get_pop, if_neg (partialOf_ne row row), Dict.get_set, if_pos rfl, htimeOf]
  · dsimp only
    rw [Dict.get_pop, if_neg (Ne.symm hpartial), Dict.get_set, if_neg (Ne.symm hplace), Dict.get_set, if_neg (Ne.symm hpartial), hfiles]

/-- A session that something keeps from being written raises or is skipped. -/
theorem not_written_of_not_good (h : Fine env disk) (hgood : ¬ Good env row) :
    _write_session env disk row = .raised ∨ ∃ disk', _write_session env disk row = .skipped disk' ∧ Fine env disk' := by
  obtain ⟨made, hmade, hfine, -⟩ := h.mkdirs (show ∀ place ∈ [(parent row).take 1, parent row], place.length ≤ 2 by simp [parent])
  have hopened := hfine.set (show (partialOf row).length = 3 from rfl) (.text [])
  unfold _write_session replace
  rw [hmade]
  cases hfolders : [(parent row).take 1, parent row].all env.takes with
  | false => exact .inr ⟨made, rfl, hfine⟩
  | true =>
    dsimp only
    rw [hfine.write rfl]
    by_cases hpartial : env.takes (partialOf row) = true
    · rw [if_pos hpartial]
      dsimp only
      cases htime : _iso env row.ts with
      | none => exact .inl rfl
      | some time =>
        have hrelative : env.takes (relative row) ≠ true := fun hrelative =>
          hgood ⟨hfolders, ⟨ hpartial, hrelative⟩, by rw [htime]; exact Option.some_ne_none time⟩
        dsimp only
        rw [hopened.write rfl, if_neg hrelative]
        exact .inr ⟨_, rfl, hopened.set rfl _⟩
    · rw [if_neg hpartial]
      exact .inr ⟨made, rfl, hfine⟩

/-! ## The loop -/

/-- A round of the loop adds a record or none. -/
theorem exportRow_length (h : Fine env disk) (hsession : row.session_id ≠ []) {state : Disk × List Fields}
    (hround : exportRow env (disk, index) row = some state) :
    Fine env state.1 ∧ (Good env row ∧ state.2.length = index.length + 1 ∨ state.2.length = index.length) := by
  unfold exportRow at hround
  rw [if_neg hsession] at hround
  by_cases hgood : Good env row
  · obtain ⟨disk', hwritten, hspec⟩ := written_of_good h hgood
    rw [hwritten] at hround
    obtain rfl := Option.some.inj hround
    exact ⟨hspec.fine, .inl ⟨hgood, by simp⟩⟩
  · rcases not_written_of_not_good h hgood with hraised | ⟨disk', hskipped, hfine⟩
    · rw [hraised] at hround
      cases hround
    · rw [hskipped] at hround
      obtain rfl := Option.some.inj hround
      exact ⟨hfine, .inr rfl⟩

/-- **As many records as rows** are there only if nothing kept a session from being written. -/
theorem good_of_length (rows : List Row) : ∀ {disk : Disk} {index : List Fields} {state : Disk × List Fields}, Fine env disk →
    (∀ row ∈ rows, row.session_id ≠ []) → rows.foldlM (exportRow env) (disk, index) = some state →
    state.2.length ≤ index.length + rows.length ∧
      (state.2.length = index.length + rows.length → ∀ row ∈ rows, Good env row) := by
  induction rows with
  | nil =>
    intro disk index state _ _ hrun
    obtain rfl := Option.some.inj hrun
    exact ⟨le_refl _, fun _ row hrow => (nomatch hrow)⟩
  | cons row rows ih =>
    intro disk index state h hsession hrun
    obtain ⟨hrow, hrows⟩ := List.forall_mem_cons.1 hsession
    rw [List.foldlM_cons] at hrun
    obtain ⟨next, hround, hrun⟩ := Option.bind_eq_some_iff.1 hrun
    obtain ⟨hfine, hlength⟩ := exportRow_length h hrow hround
    obtain ⟨hle, hall⟩ := ih hfine hrows hrun
    rw [List.length_cons]
    rcases hlength with ⟨hgood, hlength⟩ | hlength
    · exact ⟨by omega, fun heq => List.forall_mem_cons.2 ⟨hgood, hall (by omega)⟩⟩
    · exact ⟨by omega, fun heq => by omega⟩

/-- What the loop leaves where every session is written. -/
structure Exported (env : Env) (rows : List Row) (disk disk' : Disk) : Prop where
  fine : Fine env disk'
  here : (rows.map relative).Nodup → ∀ row ∈ rows,
    Dict.get disk'.files (relative row) = some (.text (sessionText env row (timeOf env row)))
  others : ∀ place, (∀ row ∈ rows, place ≠ relative row ∧ place ≠ partialOf row) →
    Dict.get disk'.files place = Dict.get disk.files place
  folders : ∀ place, place ∈ disk'.folders ↔ place ∈ disk.folders ∨ ∃ row ∈ rows, place ∈ [(parent row).take 1, parent row]

theorem foldlM_exportRow (rows : List Row) : ∀ {disk : Disk} {index : List Fields}, Fine env disk →
    (∀ row ∈ rows, row.session_id ≠ []) → (∀ row ∈ rows, Good env row) →
    ∃ disk', rows.foldlM (exportRow env) (disk, index) = some (disk', index ++ rows.map (recordOf env)) ∧ Exported env rows disk disk' := by
  induction rows with
  | nil =>
    intro disk index h _ _
    exact ⟨disk, by simp, h, fun _ row hrow => (nomatch hrow), fun _ _ => rfl, fun place => by simp⟩
  | cons row rows ih =>
    intro disk index h hsession hgood
    obtain ⟨hrow, hrows⟩ := List.forall_mem_cons.1 hsession
    obtain ⟨hgoodRow, hgoodRows⟩ := List.forall_mem_cons.1 hgood
    obtain ⟨next, hwritten, hspec⟩ := written_of_good h hgoodRow
    have hround : exportRow env (disk, index) row = some (next, index ++ [recordOf env row]) := by
      unfold exportRow
      rw [if_neg hrow, hwritten]
      rfl
    obtain ⟨disk', hrun, hexported⟩ := @ih next (index ++ [recordOf env row]) hspec.fine hrows hgoodRows
    refine ⟨disk', ?_, hexported.fine, fun hnodup => ?_, fun place hplace => ?_, fun place => ?_⟩
    · have happend : index ++ recordOf env row :: rows.map (recordOf env) = index ++ [recordOf env row] ++ rows.map (recordOf env) :=
        List.append_cons ..
      rw [List.foldlM_cons, hround, List.map_cons, happend]
      exact hrun
    · rw [List.map_cons, List.nodup_cons] at hnodup
      refine List.forall_mem_cons.2 ⟨?_, hexported.here hnodup.2⟩
      -- no later session goes to the file of the first one
      rw [hexported.others, hspec.here]
      intro other hother
      exact ⟨fun heq => hnodup.1 (heq ▸ List.mem_map_of_mem hother), (partialOf_ne other row).symm⟩
    · obtain ⟨hfirst, hrest⟩ := List.forall_mem_cons.1 hplace
      rw [hexported.others place hrest, hspec.others place hfirst.1 hfirst.2]
    · rw [hexported.folders, hspec.folders, List.exists_mem_cons_iff, or_assoc]

/-! ## No session is lost -/

/-- The file is JSON that tells its row and holds the messages of its row's record. -/
structure Own (env : Env) (row : Row) (content : Option Content) (fields : Fields) : Prop where
  text : content = some (.text (Json.dumps (.obj fields)))
  strict : Json.strict (.obj fields) = true
  run_id : fields.lookup "run_id".toList = some (.str row.run_id)
  generation : fields.lookup "generation".toList = some (Json.ofOption (fun i => .word (.int i)) row.generation)
  seq : fields.lookup "seq".toList = some (Json.ofOption (fun i => .word (.int i)) row.seq)
  messages : fields.lookup "messages".toList = some (.arr (messagesOf env row))

/-- The record of the index is about the row, and lists a file of its own. -/
structure Listed (env : Env) (disk : Disk) (row : Row) (record : Fields) : Prop where
  session_id : record.lookup "session_id".toList = some (.str row.session_id)
  run_id : record.lookup "run_id".toList = some (.str row.run_id)
  generation : record.lookup "generation".toList = some (Json.ofOption (fun i => .word (.int i)) row.generation)
  seq : record.lookup "seq".toList = some (Json.ofOption (fun i => .word (.int i)) row.seq)
  file : ∃ path fields, record.lookup "path".toList = some (.str path) ∧ Own env row (Dict.get disk.files (path.splitOn '/')) fields

/-- The index has one record for each row. -/
structure Lossless (env : Env) (turns : List Row) (disk : Disk) (rows : List Row) (records : List Fields) : Prop where
  all : rows.Perm turns
  index : Dict.get disk.files INDEX =
    some (.indented (.obj [("sessions".toList, .ofNat records.length), ("records".toList, .arr (records.map .obj))]))
  apart : (records.map fun record => record.lookup "path".toList).Nodup
  listed : List.Forall₂ (Listed env disk) rows records

/-- The export of all turns that the limit of the command admits. -/
def exportAll (env : Env) (turns : List Row) : Option Disk := export_by_node env turns [] [] [] 1000000

/-- What the export needs of the turns. -/
structure Exportable (env : Env) (turns : List Row) : Prop where
  few : turns.length ≤ 1000000
  good : ∀ row ∈ turns, Good env row
  index : env.takes INDEX = true ∧ ∀ row ∈ turns, (parent row).take 1 ≠ INDEX
  apart : (turns.map relative).Nodup
  strict : ∀ row ∈ turns, ∀ message ∈ messagesOf env row, Json.strict message = true

theorem query_turns_perm (turns : List Row) :
    ∃ sorted : List Row, sorted.Perm turns ∧ query_turns turns [] [] [] 1000000 = sorted.take 1000000 := by
  refine ⟨turns.insertionSort Row.before, List.perm_insertionSort _ _, ?_⟩
  unfold query_turns
  rw [List.filter_eq_self.2 fun row _ => by simp]
  rfl

theorem strictFields_iff {kvs : Fields} : Json.strictFields kvs = true ↔ ∀ kv ∈ kvs, Json.strict kv.2 = true := by
  induction kvs with
  | nil => simp [Json.strictFields]
  | cons kv kvs ih => rw [Json.strictFields, Bool.and_eq_true, ih, List.forall_mem_cons]

theorem strictList_iff {xs : List Json} : Json.strictList xs = true ↔ ∀ x ∈ xs, Json.strict x = true := by
  induction xs with
  | nil => simp [Json.strictList]
  | cons x xs ih => rw [Json.strictList, Bool.and_eq_true, ih, List.forall_mem_cons]

/-- Only a message can make a session's value other than JSON. -/
theorem strict_sessionOf (env : Env) (row : Row) (time_created : Text) :
    Json.strict (.obj (sessionOf env row time_created)) = true ↔ ∀ message ∈ messagesOf env row, Json.strict message = true := by
  have hoption : ∀ {α : Type} (f : α → Json) (o : Option α), (∀ a, Json.strict (f a) = true) → Json.strict (Json.ofOption f o) = true := by
    intro α f o hf
    cases o with
    | none => rfl
    | some a => exact hf a
  have hhead : ∀ kv ∈ headOf row time_created, Json.strict kv.2 = true := by
    intro kv hkv
    unfold headOf at hkv
    simp only [List.mem_cons, List.not_mem_nil, or_false] at hkv
    rcases hkv with rfl | rfl | rfl | rfl | rfl | rfl | rfl | rfl | rfl
    all_goals first | exact hoption _ _ fun _ => rfl | rfl
  have htail : ∀ kv ∈ tailOf (progress env row), Json.strict kv.2 = true := by
    intro kv hkv
    unfold tailOf at hkv
    simp only [List.mem_cons, List.not_mem_nil, or_false] at hkv
    rcases hkv with rfl | rfl | rfl <;> rfl
  rw [Json.strict, strictFields_iff, ← strictList_iff]
  unfold sessionOf
  constructor
  · intro hall
    exact hall ("messages".toList, .arr (messagesOf env row)) (List.mem_append_right _ List.mem_cons_self)
  · intro hmessages kv hkv
    rcases List.mem_append.1 hkv with hkv | hkv
    · exact hhead kv hkv
    · rcases List.mem_cons.1 hkv with rfl | hkv
      · exact hmessages
      · exact htail kv hkv

theorem lookup_path (env : Env) (row : Row) : (recordOf env row).lookup "path".toList = some (.str (as_posix (relative row))) := by
  unfold recordOf entryOf headOf tailOf
  rfl

theorem own_of_here {content : Option Content} (hcontent : content = some (.text (sessionText env row (timeOf env row))))
    (hstrict : ∀ message ∈ messagesOf env row, Json.strict message = true) :
    Own env row content (sessionOf env row (timeOf env row)) := by
  refine ⟨hcontent.trans (by rw [sessionText_eq]), (strict_sessionOf env row _).2 hstrict, rfl, rfl, rfl, ?_⟩
  unfold sessionOf headOf
  rfl

theorem fine_empty (env : Env) : Fine env ⟨[], []⟩ := ⟨fun _ h => (nomatch h), fun _ h => absurd rfl h⟩

/-- Where nothing keeps a session from being written and no two go to one file, none is lost. -/
theorem lossless_of_exportable (hsession : ∀ row ∈ turns, row.session_id ≠ []) (h : Exportable env turns) :
    ∃ disk rows records, exportAll env turns = some disk ∧ Lossless env turns disk rows records := by
  obtain ⟨sorted, hperm, hquery⟩ := query_turns_perm turns
  have htake : sorted.take 1000000 = sorted := List.take_of_length_le (hperm.length_eq ▸ h.few)
  rw [htake] at hquery
  obtain ⟨disk, hrun, hexported⟩ := @foldlM_exportRow env sorted _ [] (fine_empty env)
    (fun row hrow => hsession row (hperm.mem_iff.1 hrow)) fun row hrow => h.good row (hperm.mem_iff.1 hrow)
  rw [List.nil_append] at hrun
  have hfolder : INDEX ∉ disk.folders := by
    rw [hexported.folders]
    rintro (hin | ⟨row, hrow, hin⟩)
    · cases hin
    · rcases List.mem_cons.1 hin with heq | hin
      · exact h.index.2 row (hperm.mem_iff.1 hrow) heq.symm
      · exact absurd (congrArg List.length (List.mem_singleton.1 hin)) (by simp [INDEX, parent])
  have hapart : (sorted.map relative).Nodup := (hperm.map relative).nodup_iff.2 h.apart
  refine ⟨{ disk with files := Dict.set disk.files INDEX (.indented (.obj [("sessions".toList, .ofNat (sorted.map (recordOf env)).length),
      ("records".toList, .arr ((sorted.map (recordOf env)).map .obj))])) }, sorted, sorted.map (recordOf env), ?_, hperm, ?_, ?_, ?_⟩
  · unfold exportAll export_by_node write
    rw [hquery, hrun, Option.bind_some, if_neg (not_or.2 ⟨hfolder, by simp [h.index.1]⟩)]
  · dsimp only
    rw [Dict.get_set, if_pos rfl]
  · have hpaths : (sorted.map (recordOf env)).map (fun record => record.lookup "path".toList) =
        (sorted.map relative).map fun place => some (.str (as_posix place)) := by
      rw [List.map_map, List.map_map]
      exact List.map_congr_left fun row _ => lookup_path env row
    rw [hpaths]
    refine List.Nodup.map_on (fun place hplace place' hplace' heq => ?_) hapart
    obtain ⟨row, -, rfl⟩ := List.mem_map.1 hplace
    obtain ⟨row', -, rfl⟩ := List.mem_map.1 hplace'
    have heq : as_posix (relative row) = as_posix (relative row') := Json.str.inj (Option.some.inj heq)
    rw [← splitOn_as_posix row, heq, splitOn_as_posix]
  · rw [List.forall₂_map_right_iff, List.forall₂_same]
    intro row hrow
    refine ⟨rfl, rfl, rfl, rfl, as_posix (relative row), sessionOf env row (timeOf env row), lookup_path env row, ?_⟩
    refine own_of_here ?_ (h.strict row (hperm.mem_iff.1 hrow))
    have hindex : INDEX ≠ relative row := fun heq => absurd (congrArg List.length heq) (by simp [INDEX, relative, parent])
    dsimp only
    rw [splitOn_as_posix, Dict.get_set, if_neg hindex]
    exact hexported.here hapart row hrow

theorem exportable_of_lossless (hsession : ∀ row ∈ turns, row.session_id ≠ []) {records : List Fields}
    (hrun : exportAll env turns = some disk) (h : Lossless env turns disk rows records) : Exportable env turns := by
  obtain ⟨sorted, hperm, hquery⟩ := query_turns_perm turns
  unfold exportAll export_by_node at hrun
  rw [hquery] at hrun
  obtain ⟨state, hloop, hwrite⟩ := Option.bind_eq_some_iff.1 hrun
  unfold write at hwrite
  split at hwrite
  · cases hwrite
  rename_i hindex
  obtain ⟨hfolder, htakes⟩ := not_or.1 hindex
  obtain rfl := Option.some.inj hwrite
  -- the index has the records of the loop
  have hrecords : records = state.2 := by
    have hget := h.index
    dsimp only at hget
    rw [Dict.get_set, if_pos rfl] at hget
    have hfields := Json.obj.inj (Content.indented.inj (Option.some.inj hget))
    have harr : state.2.map Json.obj = records.map Json.obj := Json.arr.inj (congrArg Prod.snd (List.cons.inj (List.cons.inj hfields).2).1)
    exact ((List.map_injective_iff.2 fun _ _ => Json.obj.inj) harr).symm
  have hsub : ∀ row ∈ sorted.take 1000000, row ∈ turns := fun row hrow => hperm.mem_iff.1 (List.take_subset _ _ hrow)
  obtain ⟨hle, hall⟩ := good_of_length _ (fine_empty env) (fun row hrow => hsession row (hsub row hrow)) hloop
  have hcount : state.2.length = turns.length := by rw [← hrecords, ← h.listed.length_eq, h.all.length_eq]
  have hlength := hperm.length_eq
  rw [List.length_take] at hle hall
  have hfew : turns.length ≤ 1000000 := by
    simp only [List.length_nil] at hle
    omega
  have htake : sorted.take 1000000 = sorted := List.take_of_length_le (by omega)
  rw [htake] at hloop hall
  have hgood := hall (by simp only [List.length_nil]; omega)
  obtain ⟨disk, hrun, hexported⟩ := @foldlM_exportRow env sorted _ [] (fine_empty env)
    (fun row hrow => hsession row (hperm.mem_iff.1 hrow)) hgood
  rw [hrun] at hloop
  obtain rfl := Option.some.inj hloop
  rw [List.nil_append] at hrecords
  subst hrecords
  have hapart : (sorted.map relative).Nodup := by
    have hpaths := h.apart
    rw [List.map_map] at hpaths
    refine List.Nodup.of_map (fun place => some (Json.str (as_posix place))) ?_
    rw [List.map_map]
    have hsame : (fun record => record.lookup "path".toList) ∘ recordOf env = (fun place => some (Json.str (as_posix place))) ∘ relative :=
      funext fun row => lookup_path env row
    exact hsame ▸ hpaths
  refine ⟨hfew, fun row hrow => hgood row (hperm.mem_iff.2 hrow), ⟨by simpa using htakes, fun row hrow heq => ?_⟩,
    (hperm.map relative).nodup_iff.1 hapart, fun row hrow => ?_⟩
  · exact hfolder ((hexported.folders INDEX).2 (.inr ⟨row, hperm.mem_iff.2 hrow, heq ▸ List.mem_cons_self⟩))
  · have hrow := hperm.mem_iff.2 hrow
    obtain ⟨other, -, hlisted⟩ := exists_of_forall₂ h.listed (recordOf env row) (List.mem_map_of_mem hrow)
    obtain ⟨path, fields, hpath, hown⟩ := hlisted.file
    obtain rfl : as_posix (relative row) = path := Json.str.inj (Option.some.inj ((lookup_path env row).symm.trans hpath))
    -- what is listed there is the row's own file
    have hindex : INDEX ≠ relative row := fun heq => absurd (congrArg List.length heq) (by simp [INDEX, relative, parent])
    have htext := hown.text
    dsimp only at htext
    rw [splitOn_as_posix, Dict.get_set, if_neg hindex, hexported.here hapart row hrow, sessionText_eq] at htext
    have hsame := Json.dumps_injective (Content.text.inj (Option.some.inj htext))
    exact (strict_sessionOf env row _).1 (hsame ▸ hown.strict)

/-- **The export loses no session exactly if** no two go to one file, no workflow's folder is in the way of
the index, the limit admits all, nothing keeps a session from being written and every message is JSON. -/
theorem lossless_iff (env : Env) (turns : List Row) (hsession : ∀ row ∈ turns, row.session_id ≠ []) :
    (∃ disk rows records, exportAll env turns = some disk ∧ Lossless env turns disk rows records) ↔ Exportable env turns := by
  constructor
  · rintro ⟨disk, rows, records, hrun, h⟩
    exact exportable_of_lossless hsession hrun h
  · exact lossless_of_exportable hsession

/-! ## Two visits -/

/-- A file system that takes names of up to 255 bytes, an archive whose bodies are gone, and a clock. -/
def linux : Env where
  loads := fun _ => none
  record := fun _ => ⟨none, none, false⟩
  fromtimestamp := fun _ => .time "1970-01-01T00:16:41".toList
  accepts := fun name => (Text.utf8 name).length ≤ 255

/-- A visit of the node `plan-qa`. -/
def visit (seq : ℤ) (session_id : Text) : Row where
  run_id := "R1".toList
  workflow := "coder".toList
  node := "plan-qa".toList
  session_id := session_id
  generation := some 1
  seq := some seq
  ts := .fin 1001 "1001.0".toList
  source := "store".toList
  path := "R1/001".toList
  head := none

theorem lossless_iff_visits : ∃ disk rows records, exportAll linux [visit 1 "s1".toList, visit 2 "s2".toList] = some disk ∧
    Lossless linux [visit 1 "s1".toList, visit 2 "s2".toList] disk rows records := by
  refine (lossless_iff linux _ (by decide)).2 ⟨by decide, ?_, by decide, by decide, by decide⟩
  intro row hrow
  rcases List.mem_pair.1 hrow with rfl | rfl
  · exact ⟨by decide, by decide, Option.some_ne_none _⟩
  · exact ⟨by decide, by decide, Option.some_ne_none _⟩

/-- **Two visits of one session** go to one file. -/
theorem visits_collide : ([visit 1 "s1".toList, visit 2 "s1".toList].map fun row => (row.run_id, row.generation, row.seq, row.session_id)).Nodup ∧
    (∀ row ∈ [visit 1 "s1".toList, visit 2 "s1".toList], row.session_id ≠ []) ∧
    ¬ ∃ disk rows records, exportAll linux [visit 1 "s1".toList, visit 2 "s1".toList] = some disk ∧
      Lossless linux [visit 1 "s1".toList, visit 2 "s1".toList] disk rows records := by
  refine ⟨by decide, by decide, ?_⟩
  rintro ⟨disk, rows, records, hrun, h⟩
  exact absurd (exportable_of_lossless (by decide) hrun h).apart (by decide)

end Stablemate.Export
