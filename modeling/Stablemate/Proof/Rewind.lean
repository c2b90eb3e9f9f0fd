import Stablemate.Model.Rewind

/-!
# A rewind is atomic, and keeps what it replaces

* `refused_unchanged`: a refused rewind has written nothing.
* `returned_reads_back`: a rewind that returns left a checkpoint that is read back with the
  target state, the params and no gate, and the old one at the backup.
* `rewind_sound`: **in every run of rewinds whose backup names were free, every replaced
  checkpoint stands at its backup.**
* `rewind_loses`: what happens otherwise.
-/

namespace Stablemate.Rewind

open PyJson

variable {B : Type*} {F : Format B} {r : Registry} {dir dir' : RunDir B} {q : Request} {s t : State B}

/-! ## Names -/

theorem rewound_ne (rest : Text) : "checkpoint.rewound-".toList ++ rest ≠ CHECKPOINT_FILE ∧
    "checkpoint.rewound-".toList ++ rest ≠ TMP_FILE := by
  -- the names differ in their twelfth character
  have htake : ("checkpoint.rewound-".toList ++ rest).take 12 = "checkpoint.rewound-".toList.take 12 :=
    List.take_append_of_le_length (by decide)
  constructor
  · intro h
    rw [h] at htake
    exact absurd htake (by decide)
  · intro h
    rw [h] at htake
    exact absurd htake (by decide)

theorem backupName_ne_checkpoint (now : DateTime) : backupName now ≠ CHECKPOINT_FILE := by
  unfold backupName
  rw [List.append_assoc]
  exact (rewound_ne _).1

theorem backupName_ne_tmp (now : DateTime) : backupName now ≠ TMP_FILE := by
  unfold backupName
  rw [List.append_assoc]
  exact (rewound_ne _).2

theorem checkpoint_ne_tmp : CHECKPOINT_FILE ≠ TMP_FILE := by decide

/-! ## One rewind -/

/-- **A refused rewind has written nothing.** -/
theorem refused_unchanged {e : RewindError} (h : rewind F r dir q = (dir', .refused e)) : dir' = dir := by
  unfold rewind at h
  split at h
  · cases h; rfl
  · dsimp only at h
    split at h <;> cases h

@[simp] theorem put_file (dir : RunDir B) (place place' : Place) (name name' : Text) (b : Option B) :
    (dir.put place name b).file place' name' =
      if place' = place ∧ name' = name then b else dir.file place' name' := rfl

@[simp] theorem setAside_root (nodes : List Text) (backup name : Text) (dir : RunDir B) :
    (setAside nodes backup dir).file .root name = dir.file .root name := rfl

/-- What a rewind that was not refused leaves in the run directory and in the sub-flows. -/
structure Written (F : Format B) (dir : RunDir B) (q : Request) (p : Plan B) (dir' : RunDir B)
    (abandoned : List Text) : Prop where
  backup : dir'.file .root (backupName q.now) = some p.text
  root : ∀ name, name ≠ CHECKPOINT_FILE → name ≠ TMP_FILE → name ≠ backupName q.now →
    dir'.file .root name = dir.file .root name
  aside : ∀ node ∈ abandoned,
    dir'.file (.flow node) (backupName q.now) = dir.file (.flow node) CHECKPOINT_FILE
  flows : ∀ node name, name ≠ CHECKPOINT_FILE → (node ∈ abandoned → name ≠ backupName q.now) →
    dir'.file (.flow node) name = dir.file (.flow node) name
  unfinished : ∀ node ∈ abandoned, node ∈ unfinished F dir

/-- The plan holds the bytes of the checkpoint and what they say. -/
theorem check_ok {p : Plan B} (h : check F r dir q = .ok p) :
    dir.file .root CHECKPOINT_FILE = some p.text ∧ F.parse p.text = some (.pyflow p.checkpoint) ∧
      (∃ w, workflowOf r p.checkpoint.flow = .ok w ∧ w.resolve_state q.to_state = some p.spec) ∧
      ∃ coerced, coerceParams p.spec.params (newParams p.checkpoint.params p.spec q) = .ok coerced := by
  unfold check at h
  split at h
  · cases h
  rename_i text htext
  split at h
  · cases h
  · cases h
  rename_i c hc
  split at h
  · cases h
  rename_i w hw
  split at h
  · cases h
  rename_i spec hspec
  split at h
  · cases h
  dsimp only at h
  split at h
  · cases h
  split at h
  · cases h
  · rename_i coerced hcoerced
    cases h
    exact ⟨htext, hc, ⟨w, hw, hspec⟩, coerced, hcoerced⟩

/-- Writing to the run directory itself leaves the sub-flows as they are. -/
theorem unfinished_put (name : Text) (b : Option B) :
    unfinished F (dir.put .root name b) = unfinished F dir := by
  unfold unfinished
  simp [RunDir.put]

/-- What a rewind that returns says, and what it has written. -/
structure Returned (F : Format B) (dir : RunDir B) (q : Request) (p : Plan B) (dir' : RunDir B)
    (m : Rewound) : Prop where
  written : Written F dir q p dir' m.abandoned
  backup : m.backup = backupName q.now
  to_state : m.to_state = p.spec.name
  reread : ∃ plain, reread (newParams p.checkpoint.params p.spec q) = some ⟨m.params, plain⟩
  checkpoint : ∃ c : Checkpoint, dir'.file .root CHECKPOINT_FILE = some (F.write c) ∧
    c.state = p.spec.name ∧ c.waiting_on = none ∧ c.params = m.params

/-- **What a rewind can do.** -/
theorem rewind_cases (F : Format B) (r : Registry) (dir : RunDir B) (q : Request) :
    (∃ e, check F r dir q = .error e ∧ rewind F r dir q = (dir, .refused e)) ∨
    ∃ p dir', check F r dir q = .ok p ∧
      (rewind F r dir q = (dir', .raised) ∧ Written F dir q p dir' [] ∨
        ∃ m, rewind F r dir q = (dir', .returned m) ∧ Returned F dir q p dir' m) := by
  cases hcheck : check F r dir q with
  | error e => exact .inl ⟨e, rfl, by simp [rewind, hcheck]⟩
  | ok p =>
    have hne := backupName_ne_checkpoint q.now
    have hne' := backupName_ne_tmp q.now
    refine .inr ?_
    rcases hrewind : rewind F r dir q with ⟨dir', outcome⟩
    unfold rewind at hrewind
    rw [hcheck] at hrewind
    dsimp only at hrewind
    split at hrewind
    · cases hrewind
      exact ⟨p, _, rfl, .inl ⟨rfl, by simp, fun name _ _ hname => by simp [hname], by simp, by simp, by simp⟩⟩
    · rename_i kvs hread
      cases hrewind
      refine ⟨p, _, rfl, .inr ⟨_, rfl, ⟨?_, ?_, ?_, ?_, ?_⟩, rfl, rfl, ⟨kvs.property, hread⟩,
        rewritten p q kvs, ?_, rfl, rfl, rfl⟩⟩
      · simp [hne, hne']
      · intro name h1 h2 h3
        simp [h1, h2, h3]
      · intro node hnode
        simp only [setAside, if_pos hnode, if_neg hne]
        simp [RunDir.put]
      · intro node name hname hbackup
        simp only [setAside, if_neg hname]
        split
        · rename_i hnode
          rw [if_neg (hbackup hnode)]
          simp
        · simp
      · intro node hnode
        simpa [unfinished_put] using hnode
      · simp [checkpoint_ne_tmp]

/-- The new checkpoint is read back with the target state, the params and no gate, the params
coerce for that state, and the old checkpoint is at the backup. -/
structure ReadsBack (F : Format B) (r : Registry) (dir : RunDir B) (q : Request) (dir' : RunDir B)
    (m : Rewound) : Prop where
  checkpoint : ∃ p b c, check F r dir q = .ok p ∧ dir'.file .root CHECKPOINT_FILE = some b ∧
    F.parse b = some (.pyflow c) ∧
    (∃ w, workflowOf r p.checkpoint.flow = .ok w ∧ w.resolve_state q.to_state = some p.spec) ∧
    c.state = p.spec.name ∧ m.to_state = p.spec.name ∧ c.params = m.params ∧ c.waiting_on = none ∧
    ∃ coerced, coerceParams p.spec.params c.params = .ok coerced
  backup : dir'.file .root m.backup = dir.file .root CHECKPOINT_FILE

/-- **A rewind that returns is read back**, if its params are what JSON gives, without NaN. -/
theorem returned_reads_back (hjson : ∀ c, F.parse (F.write c) = some (.pyflow c.nulled)) {m : Rewound}
    (hfit : Fit F r dir q) (h : rewind F r dir q = (dir', .returned m)) : ReadsBack F r dir q dir' m := by
  rcases rewind_cases F r dir q with ⟨e, -, he⟩ | ⟨p, dir'', hcheck, ⟨hr, -⟩ | ⟨m', hr, hret⟩⟩
  · rw [he] at h; cases h
  · rw [hr] at h; cases h
  rw [hr] at h
  cases h
  obtain ⟨htext, -, hresolve, coerced, hcoerced⟩ := check_ok hcheck
  obtain ⟨hplain, hfinite⟩ := hfit p hcheck
  obtain ⟨c, hc, hstate, hwaiting, hparams⟩ := hret.checkpoint
  -- the params were written as they are
  have hsame : m.params = newParams p.checkpoint.params p.spec q := by
    obtain ⟨_, hreread⟩ := hret.reread
    rw [PyJson.Plain] at hplain
    unfold reread at hreread
    split at hreread
    · cases hreread
    · rename_i kws hkws
      rw [jsonEntries_eq_self _ hplain.1.1 hplain.2] at hkws
      cases hkws
      have heq := congrArg Subtype.val (Option.some.inj hreread)
      dsimp only at heq
      rw [← heq, ofPairs_eq_self hplain.1.2]
  have hnulled : c.nulled.params = newParams p.checkpoint.params p.spec q := by
    have hfin := nulled_of_finite _ hfinite
    rw [nulled, Value.dict.injEq] at hfin
    simp only [Checkpoint.nulled, hparams, hsame, hfin]
  refine ⟨⟨p, F.write c, c.nulled, hcheck, hc, hjson c, hresolve, hstate, hret.to_state, ?_, hwaiting, ?_⟩, ?_⟩
  · rw [hnulled, hsame]
  · exact ⟨coerced, by rw [hnulled, hcoerced]⟩
  · rw [hret.backup, hret.written.backup, htext]

/-! ## Sequences of rewinds -/

/-- **The invariant of a sequence of rewinds**: each replaced checkpoint is at its backup. -/
def Kept (s : State B) : Prop :=
  ∀ k ∈ s.replaced, (∃ now, k.backup = backupName now) ∧
    ∃ b, k.text = some b ∧ s.dir.file k.place k.backup = some b

/-- What was kept is still there after files were written that did not exist. -/
theorem Kept.written (h : Kept s) (hfresh : Fresh F s q) {p : Plan B} {abandoned : List Text}
    (hw : Written F s.dir q p dir' abandoned) :
    ∀ k ∈ s.replaced, (∃ now, k.backup = backupName now) ∧
      ∃ b, k.text = some b ∧ dir'.file k.place k.backup = some b := by
  intro k hk
  obtain ⟨⟨now, hnow⟩, b, hb, hfile⟩ := h k hk
  refine ⟨⟨now, hnow⟩, b, hb, ?_⟩
  have hne : k.backup ≠ CHECKPOINT_FILE := hnow ▸ backupName_ne_checkpoint now
  have hne' : k.backup ≠ TMP_FILE := hnow ▸ backupName_ne_tmp now
  -- a backup of before has another name than the new one
  cases hplace : k.place with
  | root =>
    rw [hplace] at hfile
    have hother : k.backup ≠ backupName q.now := fun heq => by
      rw [heq, hfresh.1] at hfile
      cases hfile
    rw [hw.root _ hne hne' hother]
    exact hfile
  | flow node =>
    rw [hplace] at hfile
    rw [hw.flows node _ hne fun hnode heq => ?_]
    · exact hfile
    · rw [heq, hfresh.2 node (hw.unfinished node hnode)] at hfile
      cases hfile

theorem kept_step (s : State B) (q : Request) (t : State B) (h : Kept s) (hfresh : Fresh F s q)
    (ht : step F r s q = some t) : Kept t := by
  rcases rewind_cases F r s.dir q with ⟨e, -, he⟩ | ⟨p, dir', hcheck, ⟨hr, hw⟩ | ⟨m, hr, hret⟩⟩
  · -- refused: nothing is written
    simp only [step, he, Option.some.injEq] at ht
    subst ht
    exact h
  · -- raised: only the backup is written, and nothing is replaced
    simp only [step, hr, Option.some.injEq] at ht
    subst ht
    exact h.written hfresh hw
  · -- returned: what was replaced is at the backup
    simp only [step, hr, Option.some.injEq] at ht
    subst ht
    have hold := h.written hfresh hret.written
    obtain ⟨htext, -⟩ := check_ok hcheck
    intro k hk
    rcases List.mem_append.1 hk with hk | hk
    · exact hold k hk
    · rcases List.mem_cons.1 hk with rfl | hk
      · refine ⟨⟨q.now, hret.backup⟩, p.text, htext, ?_⟩
        dsimp only
        rw [hret.backup, hret.written.backup]
      · obtain ⟨node, hnode, rfl⟩ := List.mem_map.1 hk
        have hmem := hret.written.unfinished node hnode
        simp only [unfinished, List.mem_filter, Bool.and_eq_true] at hmem
        obtain ⟨b, hb⟩ := Option.isSome_iff_exists.1 hmem.2.1
        refine ⟨⟨q.now, hret.backup⟩, b, hb, ?_⟩
        dsimp only
        rw [hret.backup, hret.written.aside node hnode, hb]

/-- **Rewinding is atomic and loses no checkpoint**, in every run of rewinds whose backup names
were free. In every state: each replaced checkpoint, of the run or of a sub-flow, can be read at
its backup; a refused rewind leaves everything as it was; and a rewind whose params are what
JSON gives, without NaN, is read back. -/
theorem rewind_sound (hjson : ∀ c, F.parse (F.write c) = some (.pyflow c.nulled)) {qs : List Request}
    (hfresh : Run.Along (step F r) (Fresh F) (start dir) qs)
    (hr : Run.run (step F r) (start dir) qs = some s) :
    (∀ k ∈ s.replaced, ∃ b, k.text = some b ∧ s.dir.file k.place k.backup = some b) ∧
    ∀ q dir', (∀ e, rewind F r s.dir q = (dir', .refused e) → dir' = s.dir) ∧
      ∀ m, Fit F r s.dir q → rewind F r s.dir q = (dir', .returned m) → ReadsBack F r s.dir q dir' m := by
  have hkept : Kept s := Run.inv_run_of kept_step hfresh (fun k hk => by cases hk) hr
  refine ⟨fun k hk => (hkept k hk).2, fun q dir' => ⟨fun e he => refused_unchanged he, fun m hfit hm => ?_⟩⟩
  exact returned_reads_back hjson hfit hm

/-! ## A run to try it on -/

/-- Files that hold checkpoints, or nothing that parses. -/
def checkpointFiles : Format (Option Checkpoint) where
  parse b := b.map .pyflow
  write c := some c.nulled
  ended _ := false

/-- The state `review` has no params; the state `build` has one, a `float`. -/
def build : StateSpec where
  name := "build".toList
  params := [{
    name := "x".toList
    annotation := some fun v => match v with | .float x => some (.float x) | _ => none
    required := true }]
  name_ne := by simp

def review : StateSpec where
  name := "review".toList
  params := []
  name_ne := by simp

def demo : Registry where
  class_named _ := none
  entry := some {
    model_fields := []
    builds := fun _ => true
    resolve_state := fun name =>
      if name = build.name then some build else if name = review.name then some review else none }

def atReview : Checkpoint where
  workflow := []
  run_id := []
  flow := none
  state := review.name
  params := []
  waiting_on := none
  inputs := []
  ctx := .none
  seq := 1
  updated_at := []
  state_ne := review.name_ne
  params_plain := by simp [Plain, PlainEntries]
  inputs_plain := by simp [Plain, PlainEntries]
  ctx_plain := by simp [Plain]

/-- A run directory with a checkpoint at `review`, and that of an unfinished sub-flow. -/
def demoDir : RunDir (Option Checkpoint) where
  file place name :=
    if name = CHECKPOINT_FILE ∧ (place = .root ∨ place = .flow "check".toList) then some (some atReview)
    else none
  flows := ["check".toList]
  events := []

def noon (second : ℕ) : DateTime where
  year := 2026
  month := 1
  day := 1
  hour := 12
  minute := 0
  second := second
  microsecond := 0

def toBuild (x : PyFloat) (second : ℕ) : Request where
  to_state := build.name
  set_params := [(.str "x".toList, .float x)]
  keep := none
  now := noon second

def toReview (second : ℕ) : Request where
  to_state := review.name
  set_params := []
  keep := none
  now := noon second

/-- Two rewinds in two seconds, the first of which sets a sub-flow aside. -/
theorem rewind_sound_two : ∃ s, Run.run (step checkpointFiles demo) (start demoDir)
      [toBuild (.fin 1 "1.0".toList) 0, toReview 1] = some s ∧ s.replaced.length = 3 ∧
    ∀ k ∈ s.replaced, ∃ b, k.text = some b ∧ s.dir.file k.place k.backup = some b := by
  obtain ⟨s, hs, hlength⟩ : ∃ s, Run.run (step checkpointFiles demo) (start demoDir)
      [toBuild (.fin 1 "1.0".toList) 0, toReview 1] = some s ∧ s.replaced.length = 3 := ⟨_, rfl, rfl⟩
  refine ⟨s, hs, hlength, (rewind_sound (fun _ => rfl) ?_ hs).1⟩
  refine ⟨⟨rfl, fun node hnode => ?_⟩, fun t ht => ⟨?_, fun _ _ => trivial⟩⟩
  · rw [show unfinished checkpointFiles (start demoDir).dir = ["check".toList] from rfl,
      List.mem_singleton] at hnode
    subst hnode
    rfl
  · cases ht
    exact ⟨rfl, fun node hnode => by cases hnode⟩

/-- The state of the checkpoint in a file. -/
def stateAt (file : Option (Option Checkpoint)) : Option Text := file.join.map Checkpoint.state

/-- **Two rewinds in one second share their backup's name**: the first checkpoint, which was at
`review`, is lost. And a param that is NaN is written as `null`, which is read back and does not
coerce. -/
theorem rewind_loses :
    (∃ s, Run.run (step checkpointFiles demo) (start demoDir)
        [toBuild (.fin 1 "1.0".toList) 0, toReview 0] = some s ∧
      ∃ k ∈ s.replaced, stateAt k.text = some review.name ∧
        stateAt (s.dir.file k.place k.backup) = some build.name) ∧
    ∃ dir m c, rewind checkpointFiles demo demoDir (toBuild .nan 0) = (dir, .returned m) ∧
      (dir.file .root CHECKPOINT_FILE).bind checkpointFiles.parse = some (.pyflow c) ∧
      (coerceParams build.params c.params).toOption = none :=
  ⟨⟨_, rfl, _, List.mem_cons_self, rfl, rfl⟩, ⟨_, _, _, rfl, rfl, rfl⟩⟩

end Stablemate.Rewind
