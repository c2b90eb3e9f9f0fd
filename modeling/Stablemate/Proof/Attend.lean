import Stablemate.Model.Attend

/-!
# At most one attendant a run, under a condition

* `Names`, `Ledger`, `Place.Ok`, `Thread.Ok`: what the ids, the rows and processes, the event
  loop with `recover_orphans`, and the threads keep.
* `Inv.fades`, `Inv.finish`, `Inv.drop`, `Inv.swap`: what the end of a process, the end of a row,
  a release and a thread going on preserve.
* `inv_step`: a step that meets the condition preserves all of it.
* `attend_sound`: **along a run whose steps meet the condition, no run has two live attendants,
  and no run is held when nothing is at work on it.**
-/

namespace Stablemate.Attend

open Pool

variable {s t : State} {rows : List Row} {procs procs' : List Proc} {job run : Text} {r r' : Row} {p : Proc}
  {i : ℕ}

/-! ## Rows -/

theorem mem_update {f : Row → Row} : r' ∈ update job f rows ↔ ∃ r ∈ rows, r' = if r.job_id = job then f r else r := by
  rw [update, List.mem_map]
  exact exists_congr fun r => and_congr_right fun _ => eq_comm

theorem ids_update {f : Row → Row} (hid : ∀ r, (f r).job_id = r.job_id) (rows : List Row) :
    (update job f rows).map Row.job_id = rows.map Row.job_id := by
  rw [update, List.map_map]
  refine List.map_congr_left fun r _ => ?_
  dsimp only [Function.comp]
  split
  · exact hid r
  · rfl

theorem eq_of_id (hnodup : (rows.map Row.job_id).Nodup) (hr : r ∈ rows) (hr' : r' ∈ rows) (h : r.job_id = r'.job_id) :
    r = r' := List.inj_on_of_nodup_map hnodup hr hr' h

/-- A row after `attend_finish` was there before, and it runs only if it is another job's. -/
theorem mem_attendFinish (h : r' ∈ attendFinish job rows) :
    ∃ r ∈ rows, r'.job_id = r.job_id ∧ r'.run_id = r.run_id ∧ r'.pid = r.pid ∧
      (r'.status = .running → r' = r ∧ r.job_id ≠ job) := by
  obtain ⟨r, hr, rfl⟩ := mem_update.1 h
  refine ⟨r, hr, ?_⟩
  by_cases hid : r.job_id = job
  · rw [if_pos hid]
    exact ⟨rfl, rfl, rfl, fun hrun => by cases hrun⟩
  · rw [if_neg hid]
    exact ⟨rfl, rfl, rfl, fun _ => ⟨rfl, hid⟩⟩

theorem mem_attendFinish_of_ne (h : r ∈ rows) (hne : r.job_id ≠ job) : r ∈ attendFinish job rows :=
  mem_update.2 ⟨r, h, (if_neg hne).symm⟩

theorem mem_attendOrphans : r ∈ attendOrphans rows ↔ r ∈ rows ∧ r.status = .running := by
  rw [attendOrphans, List.mem_insertionSort, List.mem_filter, decide_eq_true_iff]

theorem runningForRun_iff : runningForRun run rows = true ↔ ∃ r ∈ rows, r.run_id = run ∧ r.status = .running := by
  simp [runningForRun]

/-! ## What is kept -/

/-- The job and the run of a waiter or of a call of `stop` before `release`. -/
def Thread.names : Thread → Option (Text × Text)
  | .wait job run _ | .kill job run _ | .finish job run => some (job, run)
  | .get _ | .release _ => none

/-- Each job id stands with the run that it was made for. -/
structure Names (s : State) : Prop where
  rows : ∀ r ∈ s.rows, r.job_id ≠ [] ∧ s.given r.job_id = some r.run_id
  procs : ∀ p ∈ s.procs, s.given p.job = some p.run
  held : ∀ run job, s.by_run run = some job → s.given job = some run
  place : ∀ job run, s.place.at? = some (job, run) → job ≠ [] ∧ s.given job = some run
  threads : ∀ t ∈ s.threads, ∀ job run, t.names = some (job, run) → s.given job = some run

/-- The job of a process that is not in the ledger yet, and the place of the process. -/
def Place.new? : Place → Option (Text × ℕ)
  | .start job i => some (job.job_id, i)
  | .append row i _ => some (row.job_id, i)
  | _ => none

/-- The ledger has the process as a running one. -/
def Recorded (rows : List Row) (p : Proc) : Prop :=
  ∃ r ∈ rows, r.job_id = p.job ∧ r.status = .running ∧ r.pid = p.pid

/-- A run has one running row, a job has one live process, and the ledger has all of these but
one that was launched just now. -/
structure Ledger (rows : List Row) (procs : List Proc) (new : Option (Text × ℕ)) : Prop where
  nodup : (rows.map Row.job_id).Nodup
  single : ∀ r ∈ rows, ∀ r' ∈ rows, r.status = .running → r'.status = .running → r.run_id = r'.run_id →
    r.job_id = r'.job_id
  one : ∀ (i j : ℕ) (p q : Proc), procs[i]? = some p → procs[j]? = some q → p.alive = true → q.alive = true →
    p.job = q.job → i = j
  covered : ∀ (i : ℕ) (p : Proc), procs[i]? = some p → p.alive = true → Recorded rows p ∨ new = some (p.job, i)

/-- No process of the job is alive. -/
def Dead (procs : List Proc) (job : Text) : Prop := ∀ p ∈ procs, p.job = job → p.alive = false

/-- The process `i` is one of the job, and no other one of the job is alive. -/
def Sole (procs : List Proc) (job : Text) (i : ℕ) : Prop :=
  (∃ p, procs[i]? = some p ∧ p.job = job) ∧
    ∀ (j : ℕ) (q : Proc), procs[j]? = some q → q.alive = true → q.job = job → j = i

/-- The row of the job has the pid of the process `i`. -/
def SamePid (s : State) (job : Text) (i : ℕ) : Prop :=
  ∀ p, s.procs[i]? = some p → ∀ r ∈ s.rows, r.job_id = job → r.pid = p.pid

/-- The job has no row and no thread. -/
def Fresh (s : State) (job : Text) : Prop :=
  (∀ r ∈ s.rows, r.job_id ≠ job) ∧ ∀ t ∈ s.threads, ∀ run, t.names ≠ some (job, run)

/-- No row of the run is running. -/
def Clear (s : State) (run : Text) : Prop := ∀ r ∈ s.rows, r.run_id = run → r.status ≠ .running

/-- The rows still run as they were listed, and nothing else is at their jobs. -/
structure Pending (s : State) (rows : List Row) : Prop where
  listed : ∀ r ∈ rows, r ∈ s.rows ∧ r.status = .running
  nodup : (rows.map Row.job_id).Nodup
  threads : ∀ t ∈ s.threads, ∀ r ∈ rows, ∀ run, t.names ≠ some (r.job_id, run)
  unheld : ∀ r ∈ rows, ∀ run, s.by_run run ≠ some r.job_id

/-- What holds where the event loop or `recover_orphans` is. -/
def Place.Ok (s : State) : Place → Prop
  | .idle => True
  | .query job => Fresh s job.job_id ∧ ∀ p ∈ s.procs, p.job ≠ job.job_id
  | .publish job | .launch job => (Fresh s job.job_id ∧ ∀ p ∈ s.procs, p.job ≠ job.job_id) ∧ Clear s job.run_id
  | .start job i => (Fresh s job.job_id ∧ Sole s.procs job.job_id i) ∧ Clear s job.run_id
  | .own job i => Sole s.procs job.job_id i ∧ SamePid s job.job_id i
  | .list => s.threads = [] ∧ ∀ run, s.by_run run = none
  | .probe _ rows => Pending s rows
  | .relaunch row rows | .lose _ row rows => Pending s (row :: rows) ∧ Dead s.procs row.job_id
  | .append row i rows => Pending s (row :: rows) ∧ Sole s.procs row.job_id i
  | .hold row i rows | .reown row i rows =>
    Pending s rows ∧ row.job_id ∉ rows.map Row.job_id ∧ Sole s.procs row.job_id i ∧ SamePid s row.job_id i

def Thread.Ok (s : State) : Thread → Prop
  | .wait job _ i => Sole s.procs job i
  | .get _ => s.place.recovering = false
  | .kill job _ pid => s.place.recovering = false ∧ ∀ p ∈ s.procs, p.job = job → p.alive = true → p.pid = pid
  | .finish job _ => Dead s.procs job
  | .release _ => True

structure Inv (s : State) : Prop where
  names : Names s
  ledger : Ledger s.rows s.procs s.place.new?
  place : s.place.Ok s
  threads : ∀ t ∈ s.threads, t.Ok s
  tended : ∀ r ∈ s.rows, r.status = .running → Owned s r ∨ Dispatched s r
  letGo : ∀ run job, s.by_run run = some job → (∃ p ∈ s.procs, p.job = job) →
    (∃ t ∈ s.threads, t.run? = some run) ∨ s.place.at? = some (job, run)

/-! ## The processes end -/

/-- The same processes, of which some have ended. -/
structure Fades (procs procs' : List Proc) : Prop where
  back : ∀ (i : ℕ) (p' : Proc), procs'[i]? = some p' →
    ∃ p, procs[i]? = some p ∧ p'.job = p.job ∧ p'.run = p.run ∧ p'.pid = p.pid ∧ (p'.alive = true → p.alive = true)
  forth : ∀ (i : ℕ) (p : Proc), procs[i]? = some p → ∃ p', procs'[i]? = some p' ∧ p'.job = p.job ∧ p'.pid = p.pid

theorem Fades.mem (h : Fades procs procs') {p' : Proc} (hp : p' ∈ procs') :
    ∃ p ∈ procs, p'.job = p.job ∧ p'.run = p.run ∧ p'.pid = p.pid ∧ (p'.alive = true → p.alive = true) := by
  obtain ⟨i, hi⟩ := List.mem_iff_getElem?.1 hp
  obtain ⟨p, hp, h'⟩ := h.back i p' hi
  exact ⟨p, List.mem_of_getElem? hp, h'⟩

theorem fades_map {f : Proc → Proc} (hjob : ∀ p, (f p).job = p.job) (hrun : ∀ p, (f p).run = p.run)
    (hpid : ∀ p, (f p).pid = p.pid) (halive : ∀ p, (f p).alive = true → p.alive = true) :
    Fades procs (procs.map f) := by
  refine ⟨fun i p' hp' => ?_, fun i p hp => ⟨f p, ?_, hjob p, hpid p⟩⟩
  · rw [List.getElem?_map, Option.map_eq_some_iff] at hp'
    obtain ⟨p, hp, rfl⟩ := hp'
    exact ⟨p, hp, hjob p, hrun p, hpid p, halive p⟩
  · rw [List.getElem?_map, hp]
    rfl

theorem fades_killGroup (pid : ℕ) (procs : List Proc) : Fades procs (killGroup pid procs) := by
  apply fades_map <;> intro p <;> split <;> simp

theorem fades_set (h : procs[i]? = some p) : Fades procs (procs.set i { p with alive := false }) := by
  have hlt := (List.getElem?_eq_some_iff.1 h).1
  constructor
  · intro j p' hp'
    rw [List.getElem?_set] at hp'
    by_cases hij : i = j
    · subst hij
      rw [if_pos rfl, if_pos hlt] at hp'
      cases hp'
      exact ⟨p, h, rfl, rfl, rfl, fun hf => by cases hf⟩
    · rw [if_neg hij] at hp'
      exact ⟨p', hp', rfl, rfl, rfl, id⟩
  · intro j q hq
    rw [List.getElem?_set]
    by_cases hij : i = j
    · subst hij
      rw [h] at hq
      cases hq
      rw [if_pos rfl, if_pos hlt]
      exact ⟨_, rfl, rfl, rfl⟩
    · rw [if_neg hij]
      exact ⟨q, hq, rfl, rfl⟩

theorem Dead.fades (h : Dead procs job) (hf : Fades procs procs') : Dead procs' job := by
  intro p' hp' hjob
  obtain ⟨p, hp, hjob', -, -, halive⟩ := hf.mem hp'
  have := h p hp (hjob' ▸ hjob)
  cases ha : p'.alive with
  | false => rfl
  | true => exact (halive ha).symm.trans this

theorem Sole.fades (h : Sole procs job i) (hf : Fades procs procs') : Sole procs' job i := by
  obtain ⟨⟨p, hp, hjob⟩, hsole⟩ := h
  obtain ⟨p', hp', hjob', -⟩ := hf.forth i p hp
  refine ⟨⟨p', hp', hjob'.trans hjob⟩, fun j q' hq' halive hq => ?_⟩
  obtain ⟨q, hq0, hjq, -, -, ha⟩ := hf.back j q' hq'
  exact hsole j q hq0 (ha halive) (hjq ▸ hq)

/-- **A process ends.** -/
theorem Inv.fades (h : Inv s) (hf : Fades s.procs procs') : Inv { s with procs := procs' } := by
  have hpid : ∀ job i, SamePid s job i → SamePid { s with procs := procs' } job i := by
    intro job i hsame p' hp' r hr hjob
    obtain ⟨p, hp, -, -, hp'p, -⟩ := hf.back i p' hp'
    exact (hsame p hp r hr hjob).trans hp'p.symm
  have hunlaunched : ∀ job, (∀ p ∈ s.procs, p.job ≠ job) → ∀ p ∈ procs', p.job ≠ job := by
    intro job hjob p' hp'
    obtain ⟨p, hp, hpj, -⟩ := hf.mem hp'
    exact hpj ▸ hjob p hp
  have hledger : Ledger s.rows procs' s.place.new? := by
    refine { h.ledger with one := ?_, covered := ?_ }
    · intro i j p' q' hp' hq' hpa hqa hjob
      obtain ⟨p, hp, hpj, -, -, hp1⟩ := hf.back i p' hp'
      obtain ⟨q, hq, hqj, -, -, hq1⟩ := hf.back j q' hq'
      exact h.ledger.one i j p q hp hq (hp1 hpa) (hq1 hqa) (hpj ▸ hqj ▸ hjob)
    · intro i p' hp' hpa
      obtain ⟨p, hp, hpj, -, hpp, hp1⟩ := hf.back i p' hp'
      rw [hpj]
      refine (h.ledger.covered i p hp (hp1 hpa)).imp_left ?_
      rintro ⟨r, hr, hrj, hrun, hrp⟩
      exact ⟨r, hr, hrj.trans hpj.symm, hrun, hrp.trans hpp.symm⟩
  have hnames : Names { s with procs := procs' } := by
    refine { h.names with procs := ?_ }
    intro p' hp'
    obtain ⟨p, hp, hpj, hpr, -⟩ := hf.mem hp'
    rw [hpj, hpr]
    exact h.names.procs p hp
  refine ⟨hnames, hledger, ?_, ?_, ?_, ?_⟩
  · have hstay : ∀ place : Place, s.place = place → place.Ok s →
        place.Ok { s with procs := procs' } := by
      intro place hp hplace
      cases place with
      | idle => trivial
      | list =>
        exact hplace
      | query job =>
        exact ⟨hplace.1, hunlaunched _ hplace.2⟩
      | publish job | launch job =>
        exact ⟨⟨hplace.1.1, hunlaunched _ hplace.1.2⟩, hplace.2⟩
      | start job i =>
        exact ⟨⟨hplace.1.1, hplace.1.2.fades hf⟩, hplace.2⟩
      | own job i =>
        exact ⟨hplace.1.fades hf, hpid _ _ hplace.2⟩
      | probe spawning rows =>
        exact ⟨hplace.listed, hplace.nodup, hplace.threads, hplace.unheld⟩
      | relaunch row rows | lose _ row rows =>
        exact ⟨⟨hplace.1.listed, hplace.1.nodup, hplace.1.threads, hplace.1.unheld⟩, hplace.2.fades hf⟩
      | append row i rows =>
        exact ⟨⟨hplace.1.listed, hplace.1.nodup, hplace.1.threads, hplace.1.unheld⟩, hplace.2.fades hf⟩
      | hold row i rows | reown row i rows =>
        obtain ⟨hpend, hrow, hsole, hsame⟩ := hplace
        exact ⟨⟨hpend.listed, hpend.nodup, hpend.threads, hpend.unheld⟩, hrow, hsole.fades hf, hpid _ _ hsame⟩
    exact hstay s.place rfl h.place
  · intro t ht
    have hok := h.threads t ht
    cases t with
    | wait job run i => exact Sole.fades hok hf
    | get job => exact hok
    | kill job run pid =>
      refine ⟨hok.1, fun p' hp' hjob halive => ?_⟩
      obtain ⟨p, hp, hpj, -, hpp, ha⟩ := hf.mem hp'
      exact hpp.trans (hok.2 p hp (hpj ▸ hjob) (ha halive))
    | finish job run => exact Dead.fades hok hf
    | release run => trivial
  · intro r hr hrun
    refine (h.tended r hr hrun).imp_left ?_
    rintro (⟨i, p, hp, hpj, hpp, ht⟩ | ht)
    · obtain ⟨p', hp', hpj', hpp'⟩ := hf.forth i p hp
      exact .inl ⟨i, p', hp', hpj'.trans hpj, hpp'.trans hpp, ht⟩
    · exact .inr ht
  · rintro run job hheld ⟨p', hp', hjob⟩
    obtain ⟨p, hp, hpj, -⟩ := hf.mem hp'
    exact h.letGo run job hheld ⟨p, hp, hpj ▸ hjob⟩

/-! ## A row ends -/

theorem Pending.finish {pending : List Row} (h : Pending s pending) (hjob : ∀ r ∈ pending, r.job_id ≠ job) :
    Pending { s with rows := attendFinish job s.rows } pending := by
  refine ⟨fun r hr => ?_, h.nodup, h.threads, h.unheld⟩
  obtain ⟨hmem, hrun⟩ := h.listed r hr
  exact ⟨mem_attendFinish_of_ne hmem (hjob r hr), hrun⟩

theorem Ledger.finish {new : Option (Text × ℕ)} (h : Ledger rows procs new) (hdead : Dead procs job) :
    Ledger (attendFinish job rows) procs new := by
  refine ⟨?_, ?_, h.one, ?_⟩
  · have hids : (attendFinish job rows).map Row.job_id = rows.map Row.job_id := by
      refine ids_update (fun r => ?_) rows
      rfl
    exact hids ▸ h.nodup
  · intro r hr r' hr' hrun hrun' heq
    obtain ⟨q, hq, -, -, -, hq'⟩ := mem_attendFinish hr
    obtain ⟨q', hq0, -, -, -, hq0'⟩ := mem_attendFinish hr'
    obtain ⟨rfl, -⟩ := hq' hrun
    obtain ⟨rfl, -⟩ := hq0' hrun'
    exact h.single r hq r' hq0 hrun hrun' heq
  · intro i p hp halive
    refine (h.covered i p hp halive).imp_left ?_
    rintro ⟨r, hr, hrj, hrun, hpid⟩
    refine ⟨r, mem_attendFinish_of_ne hr fun hj => ?_, hrj, hrun, hpid⟩
    have := hdead p (List.mem_of_getElem? hp) (hrj.symm.trans hj)
    rw [halive] at this
    cases this

theorem Names.finish (h : Names s) : Names { s with rows := attendFinish job s.rows } := by
  refine { h with rows := fun r hr => ?_ }
  obtain ⟨q, hq, hj, hr', -⟩ := mem_attendFinish hr
  rw [hj, hr']
  exact h.rows q hq

theorem Fresh.finish {job' : Text} (h : Fresh s job') : Fresh { s with rows := attendFinish job s.rows } job' := by
  refine ⟨fun r hr => ?_, h.2⟩
  obtain ⟨q, hq, hj, -⟩ := mem_attendFinish hr
  exact hj ▸ h.1 q hq

theorem Clear.finish (h : Clear s run) : Clear { s with rows := attendFinish job s.rows } run := by
  intro r hr hrun hstatus
  obtain ⟨q, hq, -, -, -, hq'⟩ := mem_attendFinish hr
  obtain ⟨rfl, -⟩ := hq' hstatus
  exact h r hq hrun hstatus

theorem SamePid.finish {job' : Text} (h : SamePid s job' i) :
    SamePid { s with rows := attendFinish job s.rows } job' i := by
  intro p hp r hr hj
  obtain ⟨q, hq, hj', -, hpid, -⟩ := mem_attendFinish hr
  exact hpid.trans (h p hp q hq (hj'.symm.trans hj))

/-- **A thread ends the row of a job** of which no process is alive. -/
theorem Inv.finish (h : Inv s) (ht : .finish job run ∈ s.threads) :
    Inv { s with rows := attendFinish job s.rows } := by
  have hdead : Dead s.procs job := h.threads _ ht
  have hpend : ∀ pending, Pending s pending → Pending { s with rows := attendFinish job s.rows } pending := by
    intro pending hp
    refine hp.finish fun r hr hj => ?_
    exact hp.threads _ ht r hr run (by rw [hj]; rfl)
  refine ⟨h.names.finish, h.ledger.finish hdead, ?_, ?_, ?_, h.letGo⟩
  · have hstay : ∀ place : Place, s.place = place → place.Ok s →
        place.Ok { s with rows := attendFinish job s.rows } := by
      intro place hp hplace
      cases place with
      | idle => trivial
      | list =>
        exact hplace
      | query job =>
        exact ⟨hplace.1.finish, hplace.2⟩
      | publish job | launch job =>
        exact ⟨⟨hplace.1.1.finish, hplace.1.2⟩, hplace.2.finish⟩
      | start job i =>
        exact ⟨⟨hplace.1.1.finish, hplace.1.2⟩, hplace.2.finish⟩
      | own job i =>
        exact ⟨hplace.1, hplace.2.finish⟩
      | probe spawning rows =>
        exact hpend _ hplace
      | relaunch row rows | lose _ row rows | append row _ rows =>
        exact ⟨hpend _ hplace.1, hplace.2⟩
      | hold row i rows | reown row i rows =>
        obtain ⟨hpending, hrow, hsole, hsame⟩ := hplace
        exact ⟨hpend _ hpending, hrow, hsole, hsame.finish⟩
    exact hstay s.place rfl h.place
  · intro t ht
    have hok := h.threads t ht
    cases t <;> exact hok
  · intro r hr hrun
    obtain ⟨q, hq, -, -, -, hq'⟩ := mem_attendFinish hr
    obtain ⟨rfl, -⟩ := hq' hrun
    exact h.tended r hq hrun

/-! ## A run is released -/

theorem Pending.drop {pending : List Row} {by_run : Text → Option Text} (h : Pending s pending)
    (hle : ∀ run job, by_run run = some job → s.by_run run = some job) :
    Pending { s with by_run } pending :=
  ⟨h.listed, h.nodup, h.threads, fun r hr run hb => h.unheld r hr run (hle run _ hb)⟩

/-- **Runs are let go.** -/
theorem Inv.drop {by_run : Text → Option Text} (h : Inv s)
    (hle : ∀ run job, by_run run = some job → s.by_run run = some job) : Inv { s with by_run } := by
  have hnames : Names { s with by_run } := { h.names with held := fun run job hb => h.names.held run job (hle run job hb) }
  refine ⟨hnames, h.ledger, ?_, ?_, h.tended, fun run job hb => h.letGo run job (hle run job hb)⟩
  · have hstay : ∀ place : Place, s.place = place → place.Ok s →
        place.Ok { s with by_run } := by
      intro place hp hplace
      cases place with
      | idle => trivial
      | list =>
        refine ⟨hplace.1, fun run => ?_⟩
        cases hb : by_run run with
        | none => exact hb
        | some job =>
          have := hle run job hb
          rw [hplace.2 run] at this
          cases this
      | query job | publish job | launch job | start job i | own job i =>
        exact hplace
      | probe spawning rows =>
        exact hplace.drop hle
      | relaunch row rows | lose _ row rows | append row _ rows =>
        exact ⟨hplace.1.drop hle, hplace.2⟩
      | hold row i rows | reown row i rows =>
        exact ⟨hplace.1.drop hle, hplace.2⟩
    exact hstay s.place rfl h.place
  · intro t ht
    have hok := h.threads t ht
    cases t <;> exact hok

theorem release_some {by_run : Text → Option Text} {run' : Text} (h : release run by_run run' = some job) :
    by_run run' = some job := by
  rw [release, Function.update_apply] at h
  split at h
  · cases h
  · exact h

/-! ## A thread goes on -/

/-- A thread that comes of another is at the job of that one, or at that of a row when nothing
is recovered. -/
def Follows (s : State) (t x : Thread) : Prop :=
  ∀ job run, x.names = some (job, run) → t.names = some (job, run) ∨
    s.place.recovering = false ∧ ∃ r ∈ s.rows, r.job_id = job ∧ r.run_id = run

/-- **A thread goes on as `ts`**: these are at its job, its waiter's end is passed on, and the run
is let go or one of them is at it. -/
theorem Inv.swap {t : Thread} {ts : List Thread} (h : Inv s) (ht : t ∈ s.threads) (hok : ∀ x ∈ ts, x.Ok s)
    (hfollows : ∀ x ∈ ts, Follows s t x) (hwait : ∀ job run i, t = .wait job run i → .finish job run ∈ ts)
    (hfinish : ∀ job run, t = .finish job run → ∀ r ∈ s.rows, r.job_id = job → r.status ≠ .running)
    (hrun : ∀ run, t.run? = some run → (∃ x ∈ ts, x.run? = some run) ∨ s.by_run run = none) :
    Inv (s.go t ts) := by
  have hnames : ∀ x ∈ Pool.swap t ts s.threads, x ∈ s.threads ∨ x ∈ ts :=
    fun x hx => (mem_swap.1 hx).symm.imp_left List.mem_of_mem_erase
  have hfresh : ∀ job, s.place.recovering = false → Fresh s job → Fresh (s.go t ts) job := by
    refine fun job _ hf => ⟨hf.1, fun x hx run hj => ?_⟩
    rcases hnames x hx with hx | hx
    · exact hf.2 x hx run hj
    · rcases hfollows x hx job run hj with hj | ⟨-, r, hr, hrj, -⟩
      · exact hf.2 t ht run hj
      · exact hf.1 r hr hrj
  have hpend : ∀ pending, s.place.recovering = true → Pending s pending → Pending (s.go t ts) pending := by
    refine fun pending hrec hp => ⟨hp.listed, hp.nodup, fun x hx r hr run hj => ?_, hp.unheld⟩
    rcases hnames x hx with hx | hx
    · exact hp.threads x hx r hr run hj
    · rcases hfollows x hx _ run hj with hj | ⟨hrec', -⟩
      · exact hp.threads t ht r hr run hj
      · rw [hrec] at hrec'
        cases hrec'
  refine ⟨?_, h.ledger, ?_, ?_, ?_, ?_⟩
  · refine { h.names with threads := fun x hx job run hj => ?_ }
    rcases hnames x hx with hx | hx
    · exact h.names.threads x hx job run hj
    · rcases hfollows x hx job run hj with hj | ⟨-, r, hr, rfl, rfl⟩
      · exact h.names.threads t ht job run hj
      · exact (h.names.rows r hr).2
  · have hstay : ∀ place : Place, s.place = place → place.Ok s →
        place.Ok (s.go t ts) := by
      intro place hp hplace
      cases place with
      | idle => trivial
      | list =>
        rw [hplace.1] at ht
        cases ht
      | query job =>
        exact ⟨hfresh _ (by rw [hp]; rfl) hplace.1, hplace.2⟩
      | publish job | launch job =>
        exact ⟨⟨hfresh _ (by rw [hp]; rfl) hplace.1.1, hplace.1.2⟩, hplace.2⟩
      | start job i =>
        exact ⟨⟨hfresh _ (by rw [hp]; rfl) hplace.1.1, hplace.1.2⟩, hplace.2⟩
      | own job i =>
        exact hplace
      | probe spawning rows =>
        exact hpend _ (by rw [hp]; rfl) hplace
      | relaunch row rows | lose _ row rows | append row _ rows =>
        exact ⟨hpend _ (by rw [hp]; rfl) hplace.1, hplace.2⟩
      | hold row i rows | reown row i rows =>
        exact ⟨hpend _ (by rw [hp]; rfl) hplace.1, hplace.2⟩
    exact hstay s.place rfl h.place
  · intro x hx
    have hx' : x.Ok s := (hnames x hx).elim (h.threads x) (hok x)
    cases x <;> exact hx'
  · intro r hr hstatus
    refine (h.tended r hr hstatus).imp_left ?_
    rintro (⟨i, p, hp, hpj, hpp, hmem⟩ | hmem)
    · by_cases hx : Thread.wait r.job_id r.run_id i = t
      · exact .inr (mem_swap_left (hwait _ _ _ hx.symm))
      · exact .inl ⟨i, p, hp, hpj, hpp, mem_swap_of_ne hmem hx⟩
    · by_cases hx : Thread.finish r.job_id r.run_id = t
      · exact absurd hstatus (hfinish _ _ hx.symm r hr rfl)
      · exact .inr (mem_swap_of_ne hmem hx)
  · intro run job hb hp
    refine (h.letGo run job hb hp).imp_left ?_
    rintro ⟨x, hx, hxrun⟩
    by_cases hxt : x = t
    · rcases hrun run (hxt ▸ hxrun) with ⟨y, hy, hyrun⟩ | hnone
      · exact ⟨y, mem_swap_left hy, hyrun⟩
      · rw [show (s.go t ts).by_run run = s.by_run run from rfl, hnone] at hb
        cases hb
    · exact ⟨x, mem_swap_of_ne hx hxt, hxrun⟩

/-! ## The event loop and `recover_orphans` go on -/

/-- **The place changes**, and no row or process. -/
theorem Inv.goto {place : Place} (h : Inv s) (hnew : place.new? = s.place.new?) (hok : place.Ok { s with place })
    (hrec : place.recovering = true → s.place.recovering = true)
    (hat : ∀ job run, place.at? = some (job, run) → job ≠ [] ∧ s.given job = some run)
    (htended : ∀ r ∈ s.rows, r.status = .running → Dispatched s r → Dispatched { s with place } r)
    (hletGo : ∀ run job, s.place.at? = some (job, run) → s.by_run run = some job → (∃ p ∈ s.procs, p.job = job) →
      place.at? = some (job, run)) : Inv { s with place } := by
  refine ⟨{ h.names with place := hat }, ?_, hok, ?_, ?_, ?_⟩
  · rw [show ({ s with place } : State).place.new? = place.new? from rfl, hnew]
    exact h.ledger
  · intro t ht
    have hok := h.threads t ht
    have hback : s.place.recovering = false → place.recovering = false := by
      intro hs
      cases hr : place.recovering with
      | false => rfl
      | true => exact (hrec hr).symm.trans hs
    cases t with
    | wait job run i => exact hok
    | get job => exact hback hok
    | kill job run pid => exact ⟨hback hok.1, hok.2⟩
    | finish job run => exact hok
    | release run => trivial
  · exact fun r hr hrun => (h.tended r hr hrun).imp_right (htended r hr hrun)
  · intro run job hb hp
    rcases h.letGo run job hb hp with ht | hplace
    · exact .inl ht
    · exact .inr (hletGo run job hplace hb hp)

/-- **The place changes** to one that is at the same job. -/
theorem Inv.pass {place : Place} (h : Inv s) (hat : s.place.at? = some (job, run)) (hat' : place.at? = s.place.at?)
    (hahead : place.ahead = s.place.ahead) (hnew : place.new? = s.place.new?)
    (hrec : place.recovering = s.place.recovering) (hok : place.Ok { s with place }) : Inv { s with place } := by
  refine h.goto hnew hok hrec.symm.trans (fun job run hj => h.names.place job run (hat' ▸ hj)) ?_ ?_
  · rintro r hr hrun (hd | hd | hd)
    · exact .inl (hat'.trans hd)
    · rw [hd] at hat
      cases hat
    · exact .inr (.inr (hahead.symm ▸ hd))
  · exact fun run job hj _ _ => hat'.trans hj

/-- At a place of the event loop that is at `job`, a row is dispatched if it is that job's. -/
theorem Dispatched.id_eq (h : Dispatched s r) (hat : s.place.at? = some (job, run)) (hahead : s.place.ahead = []) :
    r.job_id = job := by
  rcases h with h | h | ⟨r', hr', -⟩
  · rw [hat] at h
    cases h
    rfl
  · rw [h] at hat
    cases hat
  · rw [hahead] at hr'
    cases hr'

/-- **A dispatch ends** before it has launched a process. -/
theorem Inv.abandon (h : Inv s) (hat : s.place.at? = some (job, run)) (hahead : s.place.ahead = [])
    (hnew : s.place.new? = none) (hfresh : Fresh s job) (hprocs : ∀ p ∈ s.procs, p.job ≠ job) :
    Inv { s with place := .idle } := by
  refine h.goto hnew.symm trivial nofun nofun ?_ ?_
  · intro r hr _ hd
    exact absurd (hd.id_eq hat hahead) (hfresh.1 r hr)
  · rintro run' job' hat' - ⟨p, hp, hjob⟩
    rw [hat] at hat'
    cases hat'
    exact absurd hjob (hprocs p hp)

/-- **The run is held** for the job that the place is at. -/
theorem Inv.hold (h : Inv s) (hat : s.place.at? = some (job, run))
    (hok : ∀ place : Place, place = s.place → place.Ok s →
      place.Ok { s with by_run := Function.update s.by_run run (some job) }) :
    Inv { s with by_run := Function.update s.by_run run (some job) } := by
  refine ⟨{ h.names with held := ?_ }, h.ledger, hok s.place rfl h.place, ?_, h.tended, ?_⟩
  · intro run' job' hb
    dsimp only at hb
    rw [Function.update_apply] at hb
    split at hb
    · cases hb
      rename_i hrun
      rw [hrun]
      exact (h.names.place job run hat).2
    · exact h.names.held run' job' hb
  · intro t ht
    have hok := h.threads t ht
    cases t <;> exact hok
  · intro run' job' hb hp
    dsimp only at hb
    rw [Function.update_apply] at hb
    split at hb
    · cases hb
      rename_i hrun
      rw [hrun]
      exact .inr hat
    · exact h.letGo run' job' hb hp

/-! ## A process is launched -/

theorem getElem?_snoc {q : Proc} : (procs ++ [p])[i]? = some q ↔ procs[i]? = some q ∨ i = procs.length ∧ q = p := by
  rcases Nat.lt_trichotomy i procs.length with hi | hi | hi
  · rw [List.getElem?_append_left hi]
    constructor
    · exact .inl
    · rintro (h | ⟨rfl, -⟩)
      · exact h
      · omega
  · subst hi
    simp [eq_comm]
  · rw [List.getElem?_eq_none (by simp; omega), List.getElem?_eq_none (by omega)]
    constructor
    · intro h
      cases h
    · rintro (h | ⟨rfl, -⟩)
      · cases h
      · omega

theorem Sole.spawn (h : Sole procs job i) (hne : p.job ≠ job) : Sole (procs ++ [p]) job i := by
  obtain ⟨⟨q, hq, hqj⟩, hsole⟩ := h
  refine ⟨⟨q, getElem?_snoc.2 (.inl hq), hqj⟩, fun j q' hq' halive hjob => ?_⟩
  rcases getElem?_snoc.1 hq' with hq' | ⟨-, rfl⟩
  · exact hsole j q' hq' halive hjob
  · exact absurd hjob hne

theorem Dead.sole_spawn (h : Dead procs job) (hjob : p.job = job) : Sole (procs ++ [p]) job procs.length := by
  refine ⟨⟨p, getElem?_snoc.2 (.inr ⟨rfl, rfl⟩), hjob⟩, fun j q hq halive hqj => ?_⟩
  rcases getElem?_snoc.1 hq with hq | ⟨rfl, -⟩
  · have := h q (List.mem_of_getElem? hq) hqj
    rw [halive] at this
    cases this
  · rfl

/-- **A process is launched** for a job that has no live process and no thread. -/
theorem Inv.spawn {pid : ℕ} {place : Place} (h : Inv s) (hat : s.place.at? = some (job, run))
    (hdead : Dead s.procs job) (hfree : ∀ t ∈ s.threads, ∀ run, t.names ≠ some (job, run))
    (hnew : s.place.new? = none) (hnew' : place.new? = some (job, s.procs.length)) (hat' : place.at? = s.place.at?)
    (hahead : place.ahead = s.place.ahead) (hrec : place.recovering = s.place.recovering)
    (hok : place.Ok { s with place, procs := s.procs ++ [⟨job, run, pid, true⟩] }) :
    Inv { s with place, procs := s.procs ++ [⟨job, run, pid, true⟩] } := by
  have hgiven := (h.names.place job run hat).2
  have hlist : s.place ≠ .list := fun hl => by rw [hl] at hat; cases hat
  have hnames : Names { s with place, procs := s.procs ++ [⟨job, run, pid, true⟩] } := by
    refine { h.names with procs := ?_, place := ?_ }
    · intro p hp
      rcases List.mem_append.1 hp with hp | hp
      · exact h.names.procs p hp
      · obtain rfl := List.mem_singleton.1 hp
        exact hgiven
    · intro job' run' h'
      exact h.names.place job' run' (hat' ▸ h')
  have hledger : Ledger s.rows (s.procs ++ [⟨job, run, pid, true⟩]) place.new? := by
    refine { h.ledger with one := ?_, covered := ?_ }
    · intro i j p q hp hq hpa hqa hjob
      have hsole := hdead.sole_spawn (p := ⟨job, run, pid, true⟩) rfl
      by_cases hpj : p.job = job
      · rw [hsole.2 i p hp hpa hpj, hsole.2 j q hq hqa (hjob.symm.trans hpj)]
      · have hpold := (getElem?_snoc.1 hp).resolve_right fun hp' => hpj (hp'.2 ▸ rfl)
        have hqold := (getElem?_snoc.1 hq).resolve_right fun hq' => hpj (hjob.trans (hq'.2 ▸ rfl))
        exact h.ledger.one i j p q hpold hqold hpa hqa hjob
    · intro i p hp halive
      rcases getElem?_snoc.1 hp with hp | ⟨rfl, rfl⟩
      · refine .inl ((h.ledger.covered i p hp halive).resolve_right fun h' => ?_)
        rw [hnew] at h'
        cases h'
      · exact .inr hnew'
  refine ⟨hnames, hledger, hok, ?_, ?_, ?_⟩
  · intro t ht
    have hok := h.threads t ht
    have hne := hfree t ht
    cases t with
    | wait job' run' i => exact Sole.spawn hok fun hj => hne run' (by rw [show job = job' from hj]; rfl)
    | get job' => exact hrec.trans hok
    | kill job' run' pid' =>
      refine ⟨hrec.trans hok.1, fun p hp hjob halive => ?_⟩
      rcases List.mem_append.1 hp with hp | hp
      · exact hok.2 p hp hjob halive
      · obtain rfl := List.mem_singleton.1 hp
        exact absurd (by rw [show job = job' from hjob]; rfl) (hne run')
    | finish job' run' =>
      intro p hp hjob
      rcases List.mem_append.1 hp with hp | hp
      · exact hok p hp hjob
      · obtain rfl := List.mem_singleton.1 hp
        exact absurd (by rw [show job = job' from hjob]; rfl) (hne run')
    | release run' => trivial
  · intro r hr hrun
    rcases h.tended r hr hrun with (⟨i, p, hp, hpj⟩ | ht) | (hd | hd | hd)
    · exact .inl (.inl ⟨i, p, getElem?_snoc.2 (.inl hp), hpj⟩)
    · exact .inl (.inr ht)
    · exact .inr (.inl (hat'.trans hd))
    · exact absurd hd hlist
    · exact .inr (.inr (.inr (hahead.symm ▸ hd)))
  · rintro run' job' hb ⟨p, hp, hpj⟩
    have hheld := h.names.held run' job' hb
    by_cases hj : job' = job
    · subst hj
      rw [hgiven] at hheld
      cases hheld
      exact .inr (hat'.trans hat)
    · have hpold : p ∈ s.procs := by
        rcases List.mem_append.1 hp with hp | hp
        · exact hp
        · obtain rfl := List.mem_singleton.1 hp
          exact absurd hpj.symm hj
      exact (h.letGo run' job' hb ⟨p, hpold, hpj⟩).imp_right hat'.trans

/-! ## A row is set running -/

/-- A row that a job did not have is added. -/
theorem mem_attendStart {row : Row} (hfresh : ∀ r ∈ rows, r.job_id ≠ row.job_id) :
    r ∈ attendStart row rows ↔ r ∈ rows ∨ r = row := by
  rw [attendStart, List.mem_append, List.mem_filter, List.mem_singleton, decide_eq_true_iff]
  exact or_congr_left (and_iff_left_of_imp (hfresh r))

/-- **`attend_start` records the process** that was launched just now. -/
theorem Inv.start {j : AttendJob} (h : Inv s) (hplace : s.place = .start j i) (hp : s.procs[i]? = some p) :
    Inv { s with rows := attendStart ⟨j.job_id, j.run_id, .running, p.pid, j.created_at⟩ s.rows, place := .own j i } := by
  set row : Row := ⟨j.job_id, j.run_id, .running, p.pid, j.created_at⟩
  have hok := h.place
  rw [hplace] at hok
  obtain ⟨⟨hfresh, hsole⟩, hclear⟩ := hok
  have hmem : ∀ {r}, r ∈ attendStart row s.rows ↔ r ∈ s.rows ∨ r = row := mem_attendStart hfresh.1
  have hat : s.place.at? = some (j.job_id, j.run_id) := by rw [hplace]; rfl
  obtain ⟨hnonempty, hgiven⟩ := h.names.place _ _ hat
  obtain ⟨⟨p', hp', hpj⟩, hother⟩ := hsole
  rw [hp] at hp'
  cases hp'
  have hnames : Names { s with rows := attendStart row s.rows, place := .own j i } := by
    refine { h.names with rows := ?_, place := ?_ }
    · intro r hr
      rcases hmem.1 hr with hr | rfl
      · exact h.names.rows r hr
      · exact ⟨hnonempty, hgiven⟩
    · rintro job run h'
      cases h'
      exact ⟨hnonempty, hgiven⟩
  have hledger : Ledger (attendStart row s.rows) s.procs none := by
    refine ⟨?_, ?_, h.ledger.one, ?_⟩
    · have hkeep : s.rows.filter (fun r => r.job_id ≠ row.job_id) = s.rows :=
        List.filter_eq_self.2 fun r hr => decide_eq_true (hfresh.1 r hr)
      rw [attendStart, hkeep, List.map_append]
      refine List.nodup_append.2 ⟨h.ledger.nodup, List.nodup_singleton _, ?_⟩
      rintro a ha b hb rfl
      obtain ⟨r, hr, rfl⟩ := List.mem_map.1 ha
      exact hfresh.1 r hr (List.mem_singleton.1 hb)
    · intro r hr r' hr' hrun hrun' heq
      rcases hmem.1 hr with hr | rfl <;> rcases hmem.1 hr' with hr' | rfl
      · exact h.ledger.single r hr r' hr' hrun hrun' heq
      · exact absurd hrun (hclear r hr heq)
      · exact absurd hrun' (hclear r' hr' heq.symm)
      · rfl
    · intro k q hq halive
      refine .inl ?_
      rcases h.ledger.covered k q hq halive with ⟨r, hr, hrj⟩ | hnew
      · exact ⟨r, hmem.2 (.inl hr), hrj⟩
      · rw [hplace] at hnew
        have hk : i = k := congrArg Prod.snd (Option.some.inj hnew)
        rw [← hk, hp] at hq
        cases hq
        exact ⟨row, hmem.2 (.inr rfl), hpj.symm, rfl, rfl⟩
  refine ⟨hnames, hledger, ⟨⟨⟨p, hp, hpj⟩, hother⟩, ?_⟩, ?_, ?_, ?_⟩
  · intro q hq r hr hrj
    rw [hp] at hq
    cases hq
    rcases hmem.1 hr with hr | rfl
    · exact absurd hrj (hfresh.1 r hr)
    · rfl
  · intro t ht
    have hok := h.threads t ht
    cases t with
    | wait job run k => exact hok
    | get job => rfl
    | kill job run pid => exact ⟨rfl, hok.2⟩
    | finish job run => exact hok
    | release run => trivial
  · intro r hr hrun
    rcases hmem.1 hr with hr | rfl
    · refine .inl ((h.tended r hr hrun).resolve_right fun hd => ?_)
      exact hfresh.1 r hr (hd.id_eq hat (by rw [hplace]; rfl))
    · exact .inr (.inl rfl)
  · intro run job hb hp
    refine (h.letGo run job hb hp).imp_right ?_
    intro hat'
    rw [hplace] at hat'
    exact hat'

/-- **`attend_append_session` records the process** that was launched just now. -/
theorem Inv.append {row : Row} {pending : List Row} (h : Inv s) (hplace : s.place = .append row i pending)
    (hp : s.procs[i]? = some p) :
    Inv { s with rows := attendAppendSession row.job_id p.pid s.rows, place := .hold row i pending } := by
  have hok := h.place
  rw [hplace] at hok
  obtain ⟨hpend, hsole⟩ := hok
  obtain ⟨hrow, hrun⟩ := hpend.listed row List.mem_cons_self
  have hnotin : row.job_id ∉ pending.map Row.job_id := (List.nodup_cons.1 hpend.nodup).1
  -- the row of the job gets the pid, and it was running before
  have hmem : ∀ {r'}, r' ∈ attendAppendSession row.job_id p.pid s.rows ↔
      r' = { row with pid := p.pid } ∨ r' ∈ s.rows ∧ r'.job_id ≠ row.job_id := by
    intro r'
    rw [attendAppendSession, mem_update]
    constructor
    · rintro ⟨r, hr, rfl⟩
      by_cases hj : r.job_id = row.job_id
      · rw [if_pos hj, eq_of_id h.ledger.nodup hr hrow hj, ← hrun]
        exact .inl rfl
      · rw [if_neg hj]
        exact .inr ⟨hr, hj⟩
    · rintro (rfl | ⟨hr, hj⟩)
      · exact ⟨row, hrow, by rw [if_pos rfl, ← hrun]⟩
      · exact ⟨r', hr, (if_neg hj).symm⟩
  obtain ⟨⟨p', hp', hpj⟩, hother⟩ := hsole
  rw [hp] at hp'
  cases hp'
  have hback : ∀ {r'}, r' ∈ attendAppendSession row.job_id p.pid s.rows →
      ∃ r ∈ s.rows, r'.job_id = r.job_id ∧ r'.run_id = r.run_id ∧ r'.status = r.status := by
    intro r' hr'
    rcases hmem.1 hr' with rfl | ⟨hr', -⟩
    · exact ⟨row, hrow, rfl, rfl, rfl⟩
    · exact ⟨r', hr', rfl, rfl, rfl⟩
  have hnames : Names { s with rows := attendAppendSession row.job_id p.pid s.rows, place := .hold row i pending } := by
    refine { h.names with rows := ?_, place := ?_ }
    · intro r' hr'
      obtain ⟨r, hr, hj, hr', -⟩ := hback hr'
      rw [hj, hr']
      exact h.names.rows r hr
    · rintro job run h'
      cases h'
      exact h.names.rows row hrow
  have hledger : Ledger (attendAppendSession row.job_id p.pid s.rows) s.procs none := by
    refine ⟨?_, ?_, h.ledger.one, ?_⟩
    · have hids : (attendAppendSession row.job_id p.pid s.rows).map Row.job_id = s.rows.map Row.job_id := by
        refine ids_update (fun r => ?_) s.rows
        rfl
      exact hids ▸ h.ledger.nodup
    · intro r₁ hr₁ r₂ hr₂ hrun₁ hrun₂ heq
      obtain ⟨q₁, hq₁, hj₁, hrun₁', hst₁⟩ := hback hr₁
      obtain ⟨q₂, hq₂, hj₂, hrun₂', hst₂⟩ := hback hr₂
      rw [hj₁, hj₂]
      exact h.ledger.single q₁ hq₁ q₂ hq₂ (hst₁ ▸ hrun₁) (hst₂ ▸ hrun₂) (hrun₁' ▸ hrun₂' ▸ heq)
    · intro k q hq halive
      refine .inl ?_
      by_cases hqj : q.job = row.job_id
      · have hk := hother k q hq halive hqj
        rw [hk, hp] at hq
        cases hq
        exact ⟨_, hmem.2 (.inl rfl), hqj.symm, hrun, rfl⟩
      · obtain ⟨r, hr, hrj, hr'⟩ := (h.ledger.covered k q hq halive).resolve_right fun hnew => by
          rw [hplace] at hnew
          exact hqj (congrArg Prod.fst (Option.some.inj hnew)).symm
        exact ⟨r, hmem.2 (.inr ⟨hr, fun hj => hqj (hrj.symm.trans hj)⟩), hrj, hr'⟩
  refine ⟨hnames, hledger, ⟨?_, hnotin, ⟨⟨p, hp, hpj⟩, hother⟩, ?_⟩, ?_, ?_, ?_⟩
  · refine ⟨?_, (List.nodup_cons.1 hpend.nodup).2, ?_, ?_⟩
    · intro r hr
      obtain ⟨hr', hst⟩ := hpend.listed r (List.mem_cons_of_mem _ hr)
      exact ⟨hmem.2 (.inr ⟨hr', fun hj => hnotin (hj ▸ List.mem_map_of_mem hr)⟩), hst⟩
    · exact fun t ht r hr => hpend.threads t ht r (List.mem_cons_of_mem _ hr)
    · exact fun r hr => hpend.unheld r (List.mem_cons_of_mem _ hr)
  · intro q hq r hr hrj
    rw [hp] at hq
    cases hq
    rcases hmem.1 hr with rfl | ⟨-, hne⟩
    · rfl
    · exact absurd hrj hne
  · intro t ht
    have hok := h.threads t ht
    have hrec : s.place.recovering ≠ false := by rw [hplace]; nofun
    cases t with
    | wait job run k => exact hok
    | get job => exact absurd hok hrec
    | kill job run pid => exact absurd hok.1 hrec
    | finish job run => exact hok
    | release run => trivial
  · intro r hr hstatus
    rcases hmem.1 hr with rfl | ⟨hr, hne⟩
    · exact .inr (.inl rfl)
    · refine (h.tended r hr hstatus).imp_right ?_
      rintro (hd | hd | hd)
      · rw [hplace] at hd
        exact absurd (congrArg Prod.fst (Option.some.inj hd)).symm hne
      · rw [hplace] at hd
        cases hd
      · rw [hplace] at hd
        exact .inr (.inr hd)
  · intro run job hb hp
    refine (h.letGo run job hb hp).imp_right ?_
    intro hat
    rw [hplace] at hat
    exact hat

/-! ## The other moves -/

/-- **A waiter is started** on the process of the row, and the place goes on. -/
theorem Inv.own {place : Place} (h : Inv s) (hat : s.place.at? = some (job, run)) (hnew : s.place.new? = none)
    (hsole : Sole s.procs job i) (hsame : SamePid s job i) (hat' : place.at? = none) (hnew' : place.new? = none)
    (hahead : place.ahead = s.place.ahead) (hrec : place.recovering = s.place.recovering)
    (hok : place.Ok { s with threads := .wait job run i :: s.threads, place }) :
    Inv { s with threads := .wait job run i :: s.threads, place } := by
  have hlist : s.place ≠ .list := fun hl => by rw [hl] at hat; cases hat
  have hnames : Names { s with threads := .wait job run i :: s.threads, place } := by
    refine { h.names with place := ?_, threads := ?_ }
    · intro job' run' h'
      rw [show ({ s with threads := .wait job run i :: s.threads, place } : State).place.at? = place.at? from rfl,
        hat'] at h'
      cases h'
    · intro t ht job' run' h'
      rcases List.mem_cons.1 ht with rfl | ht
      · cases h'
        exact (h.names.place _ _ hat).2
      · exact h.names.threads t ht job' run' h'
  refine ⟨hnames, ?_, hok, ?_, ?_, ?_⟩
  · show Ledger s.rows s.procs place.new?
    rw [hnew', ← hnew]
    exact h.ledger
  · intro t ht
    rcases List.mem_cons.1 ht with rfl | ht
    · exact hsole
    · have hok := h.threads t ht
      cases t with
      | wait job run k => exact hok
      | get job => exact hrec.trans hok
      | kill job run pid => exact ⟨hrec.trans hok.1, hok.2⟩
      | finish job run => exact hok
      | release run => trivial
  · intro r hr hrun
    rcases h.tended r hr hrun with (⟨k, p, hp, hpj, hpp, ht⟩ | ht) | (hd | hd | hd)
    · exact .inl (.inl ⟨k, p, hp, hpj, hpp, List.mem_cons_of_mem _ ht⟩)
    · exact .inl (.inr (List.mem_cons_of_mem _ ht))
    · rw [hat] at hd
      obtain ⟨rfl, rfl⟩ := Prod.ext_iff.1 (Option.some.inj hd)
      obtain ⟨p, hp, hpj⟩ := hsole.1
      exact .inl (.inl ⟨i, p, hp, hpj, (hsame p hp r hr rfl).symm, List.mem_cons_self⟩)
    · exact absurd hd hlist
    · exact .inr (.inr (.inr (hahead.symm ▸ hd)))
  · intro run' job' hb hp
    rcases h.letGo run' job' hb hp with ⟨t, ht, htrun⟩ | hplace
    · exact .inl ⟨t, List.mem_cons_of_mem _ ht, htrun⟩
    · rw [hat] at hplace
      cases hplace
      exact .inl ⟨_, List.mem_cons_self, rfl⟩

/-- A shorter list of rows is pending still. -/
theorem Pending.tail {row : Row} {pending : List Row} (h : Pending s (row :: pending)) : Pending s pending :=
  ⟨fun r hr => h.listed r (List.mem_cons_of_mem _ hr), (List.nodup_cons.1 h.nodup).2,
    fun t ht r hr => h.threads t ht r (List.mem_cons_of_mem _ hr), fun r hr => h.unheld r (List.mem_cons_of_mem _ hr)⟩

/-- **A row is lost**: `recover_orphans` ends the row of a job that has no live process. -/
theorem Inv.lose {spawning : Bool} {row : Row} {pending : List Row} (h : Inv s)
    (hplace : s.place = .lose spawning row pending) :
    Inv { s with rows := attendFinish row.job_id s.rows, place := .probe spawning pending } := by
  have hok := h.place
  rw [hplace] at hok
  obtain ⟨hpend, hdead⟩ := hok
  have hnotin : row.job_id ∉ pending.map Row.job_id := (List.nodup_cons.1 hpend.nodup).1
  have hpending : Pending { s with rows := attendFinish row.job_id s.rows, place := .probe spawning pending } pending := by
    have hother : ∀ r ∈ pending, r.job_id ≠ row.job_id := fun r hr hj => hnotin (hj ▸ List.mem_map_of_mem hr)
    have hlisted := hpend.tail.finish hother
    exact ⟨hlisted.listed, hlisted.nodup, hlisted.threads, hlisted.unheld⟩
  have hnames : Names { s with rows := attendFinish row.job_id s.rows, place := .probe spawning pending } :=
    { (h.names.finish : Names { s with rows := attendFinish row.job_id s.rows }) with place := nofun }
  refine ⟨hnames, ?_, hpending, ?_, ?_, ?_⟩
  · have hledger := h.ledger.finish hdead
    rw [hplace] at hledger
    exact hledger
  · intro t ht
    have hok := h.threads t ht
    have hrec : s.place.recovering ≠ false := by rw [hplace]; nofun
    cases t with
    | wait job run k => exact hok
    | get job => exact absurd hok hrec
    | kill job run pid => exact absurd hok.1 hrec
    | finish job run => exact hok
    | release run => trivial
  · intro r hr hrun
    obtain ⟨q, hq, -, -, -, hq'⟩ := mem_attendFinish hr
    obtain ⟨rfl, hne⟩ := hq' hrun
    refine (h.tended r hq hrun).imp_right ?_
    rw [Dispatched, hplace]
    rintro (hd | hd | hd)
    · exact absurd (congrArg Prod.fst (Option.some.inj hd)).symm hne
    · cases hd
    · exact .inr (.inr hd)
  · intro run job hb hp
    refine .inl ((h.letGo run job hb hp).resolve_right fun hat => ?_)
    rw [hplace] at hat
    cases hat
    exact hpend.unheld row List.mem_cons_self _ hb

/-- **The rows that run are listed.** -/
theorem Inv.list {spawning : Bool} (h : Inv s) (hplace : s.place = .list) :
    Inv { s with place := .probe spawning (attendOrphans s.rows) } := by
  have hok := h.place
  rw [hplace] at hok
  have hpending : Pending s (attendOrphans s.rows) := by
    refine ⟨fun r hr => mem_attendOrphans.1 hr, ?_, ?_, ?_⟩
    · have hperm := (List.perm_insertionSort (fun a b : Row => a.started_at ≤ b.started_at)
        (s.rows.filter fun r => r.status = .running)).map Row.job_id
      exact hperm.nodup_iff.2 (h.ledger.nodup.sublist (List.filter_sublist.map _))
    · intro t ht
      rw [hok.1] at ht
      cases ht
    · intro r _ run
      rw [hok.2 run]
      nofun
  refine h.goto ?_ ⟨hpending.listed, hpending.nodup, hpending.threads, hpending.unheld⟩ ?_ nofun ?_ ?_
  · rw [hplace]
    rfl
  · intro _
    rw [hplace]
    rfl
  · intro r hr hrun _
    exact .inr (.inr ⟨r, mem_attendOrphans.2 ⟨hr, hrun⟩, rfl⟩)
  · intro run job hat
    rw [hplace] at hat
    cases hat

/-- A row whose pid no live process has is a row of a job with no live process. -/
theorem Inv.dead_of_probe {spawning : Bool} {row : Row} {pending : List Row} (h : Inv s)
    (hplace : s.place = .probe spawning (row :: pending)) (hpid : ∀ p ∈ s.procs, p.alive = true → p.pid ≠ row.pid) :
    Dead s.procs row.job_id := by
  have hok := h.place
  rw [hplace] at hok
  have hrow : row ∈ s.rows := (Pending.listed hok row List.mem_cons_self).1
  intro p hp hjob
  obtain ⟨i, hi⟩ := List.mem_iff_getElem?.1 hp
  cases halive : p.alive with
  | false => rfl
  | true =>
    obtain ⟨r, hr, hrj, -, hrp⟩ := (h.ledger.covered i p hi halive).resolve_right fun hnew => by
      rw [hplace] at hnew
      cases hnew
    obtain rfl := eq_of_id h.ledger.nodup hr hrow (hrj.trans hjob)
    exact absurd hrp.symm (hpid p hp halive)

/-- **A row is taken up** by `recover_orphans`. -/
theorem Inv.probe {spawning : Bool} {row : Row} {pending : List Row} {place : Place} (h : Inv s)
    (hplace : s.place = .probe spawning (row :: pending)) (hpid : ∀ p ∈ s.procs, p.alive = true → p.pid ≠ row.pid)
    (hnext : place = .relaunch row pending ∨ place = .lose spawning row pending) : Inv { s with place } := by
  have hdead := h.dead_of_probe hplace hpid
  have hok := h.place
  rw [hplace] at hok
  have hpending : Pending { s with place } (row :: pending) := ⟨hok.listed, hok.nodup, hok.threads, hok.unheld⟩
  have hname := h.names.rows row (hok.listed row List.mem_cons_self).1
  have hat : place.at? = some (row.job_id, row.run_id) := by rcases hnext with rfl | rfl <;> rfl
  have hahead : place.ahead = pending := by rcases hnext with rfl | rfl <;> rfl
  refine h.goto ?_ ?_ ?_ ?_ ?_ ?_
  · rw [hplace]
    rcases hnext with rfl | rfl <;> rfl
  · rcases hnext with rfl | rfl <;> exact ⟨hpending, hdead⟩
  · intro _
    rw [hplace]
    rfl
  · intro job run h'
    rw [hat] at h'
    cases h'
    exact hname
  · intro r hr hrun hd
    rw [Dispatched, hplace] at hd
    rcases hd with hd | hd | ⟨r', hr', hj⟩
    · cases hd
    · cases hd
    · rcases List.mem_cons.1 hr' with rfl | hr'
      · obtain rfl := eq_of_id h.ledger.nodup hr (hok.listed r' List.mem_cons_self).1 hj.symm
        exact .inl hat
      · exact .inr (.inr ⟨r', hahead.symm ▸ hr', hj⟩)
  · intro run job hat'
    rw [hplace] at hat'
    cases hat'

/-- **groom ends and starts again**, with no process that is not in the ledger. -/
theorem Inv.restart (h : Inv s) (hmeets : unrecorded s = false) :
    Inv { s with by_run := fun _ => none, place := .list, threads := [] } := by
  refine ⟨⟨h.names.rows, h.names.procs, nofun, nofun, nofun⟩, ?_, ⟨rfl, fun _ => rfl⟩, nofun, ?_, nofun⟩
  · refine { h.ledger with covered := ?_ }
    intro i p hp halive
    refine .inl ((h.ledger.covered i p hp halive).resolve_right fun hnew => ?_)
    have hdead : ∀ k, s.place.new? = some (p.job, k) → (s.procs[k]?).any Proc.alive = false := by
      intro k hk
      revert hmeets hk
      cases hplace : s.place with
      | start job j =>
        intro hmeets hk
        rw [unrecorded, hplace] at hmeets
        rw [← show j = k from congrArg Prod.snd (Option.some.inj hk)]
        exact hmeets
      | append row j rows =>
        intro hmeets hk
        rw [unrecorded, hplace] at hmeets
        rw [← show j = k from congrArg Prod.snd (Option.some.inj hk)]
        exact hmeets
      | _ => nofun
    have := hdead i hnew
    rw [hp, Option.any_some, halive] at this
    cases this
  · intro r _ _
    exact .inr (.inr (.inl rfl))

/-- **`stop` is called.** -/
theorem Inv.stop (h : Inv s) (hrec : s.place.recovering = false) : Inv { s with threads := .get job :: s.threads } := by
  have hfresh : ∀ {j}, Fresh s j → Fresh { s with threads := .get job :: s.threads } j := by
    intro j hf
    refine ⟨hf.1, fun t ht run hj => ?_⟩
    rcases List.mem_cons.1 ht with rfl | ht
    · cases hj
    · exact hf.2 t ht run hj
  refine ⟨{ h.names with threads := ?_ }, h.ledger, ?_, ?_, ?_, ?_⟩
  · intro t ht job' run' h'
    rcases List.mem_cons.1 ht with rfl | ht
    · cases h'
    · exact h.names.threads t ht job' run' h'
  · have hstay : ∀ place : Place, place.recovering = false → place.Ok s →
        place.Ok { s with threads := .get job :: s.threads } := by
      intro place hrec hplace
      cases place with
      | idle => trivial
      | query job => exact ⟨hfresh hplace.1, hplace.2⟩
      | publish job | launch job => exact ⟨⟨hfresh hplace.1.1, hplace.1.2⟩, hplace.2⟩
      | start job i => exact ⟨⟨hfresh hplace.1.1, hplace.1.2⟩, hplace.2⟩
      | own job i => exact hplace
      | _ => cases hrec
    exact hstay s.place hrec h.place
  · intro t ht
    rcases List.mem_cons.1 ht with rfl | ht
    · exact hrec
    · have hok := h.threads t ht
      cases t <;> exact hok
  · intro r hr hrun
    refine (h.tended r hr hrun).imp_left ?_
    rintro (⟨k, p, hp, hpj, hpp, ht⟩ | ht)
    · exact .inl ⟨k, p, hp, hpj, hpp, List.mem_cons_of_mem _ ht⟩
    · exact .inr (List.mem_cons_of_mem _ ht)
  · intro run job' hb hp
    refine (h.letGo run job' hb hp).imp_left ?_
    rintro ⟨t, ht, htrun⟩
    exact ⟨t, List.mem_cons_of_mem _ ht, htrun⟩

/-- **A run is announced** that `by_run` does not hold, under a job id that was not given before. -/
theorem Inv.announce {job : AttendJob} (h : Inv s) (hplace : s.place = .idle) (hid : job.job_id ≠ [])
    (hgiven : s.given job.job_id = none) :
    Inv { s with place := .query job, given := Function.update s.given job.job_id (some job.run_id) } := by
  have hkeeps : ∀ {j run}, s.given j = some run →
      Function.update s.given job.job_id (some job.run_id) j = some run := by
    intro j run hj
    rw [Function.update_of_ne fun he => ?_]
    · exact hj
    · rw [he, hgiven] at hj
      cases hj
  have hne : ∀ {j run}, s.given j = some run → j ≠ job.job_id := by
    rintro j run hj rfl
    rw [hgiven] at hj
    cases hj
  refine ⟨⟨?_, ?_, ?_, ?_, ?_⟩, ?_, ⟨⟨?_, ?_⟩, ?_⟩, ?_, ?_, ?_⟩
  · exact fun r hr => ⟨(h.names.rows r hr).1, hkeeps (h.names.rows r hr).2⟩
  · exact fun p hp => hkeeps (h.names.procs p hp)
  · exact fun run j hb => hkeeps (h.names.held run j hb)
  · rintro j run hat
    cases hat
    exact ⟨hid, Function.update_self ..⟩
  · exact fun t ht j run hj => hkeeps (h.names.threads t ht j run hj)
  · have hledger := h.ledger
    rw [hplace] at hledger
    exact hledger
  · exact fun r hr => hne (h.names.rows r hr).2
  · exact fun t ht run hj => hne (h.names.threads t ht _ run hj) rfl
  · exact fun p hp => hne (h.names.procs p hp)
  · intro t ht
    have hok := h.threads t ht
    cases t with
    | wait job run k => exact hok
    | get job => rfl
    | kill job run pid => exact ⟨rfl, hok.2⟩
    | finish job run => exact hok
    | release run => trivial
  · intro r hr hrun
    refine .inl ((h.tended r hr hrun).resolve_right ?_)
    rw [Dispatched, hplace]
    rintro (hd | hd | ⟨r', hr', -⟩)
    · cases hd
    · cases hd
    · cases hr'
  · intro run j hb hp
    refine .inl ((h.letGo run j hb hp).resolve_right ?_)
    rw [hplace]
    nofun

/-! ## Steps -/

theorem spawn_some {pid : ℕ} (h : spawn job run pid s = some t) :
    t = { s with procs := s.procs ++ [⟨job, run, pid, true⟩] } := by
  rw [spawn] at h
  split at h
  · cases h
    rfl
  · cases h

theorem inv_launch {outcome : Launch} (h : Inv s) (hmeets : Meets s (.launch outcome))
    (hs : launch s outcome = some t) : Inv t := by
  have hok := h.place
  rw [launch] at hs
  split at hs
  · rename_i job hplace
    rw [hplace] at hok
    obtain ⟨⟨hfresh, hprocs⟩, hclear⟩ := hok
    have hat : s.place.at? = some (job.job_id, job.run_id) := by rw [hplace]; rfl
    have hdead : Dead s.procs job.job_id := fun p hp hj => absurd hj (hprocs p hp)
    cases outcome with
    | starts pid =>
      obtain ⟨u, hu, rfl⟩ := Option.map_eq_some_iff.1 hs
      rw [spawn_some hu]
      refine h.spawn hat hdead hfresh.2 ?_ rfl ?_ ?_ ?_ ⟨⟨hfresh, hdead.sole_spawn rfl⟩, hclear⟩ <;> rw [hplace] <;> rfl
    | raises =>
      cases hs
      refine h.abandon hat ?_ ?_ hfresh hprocs <;> rw [hplace] <;> rfl
    | raisesAfter pid => cases hmeets
  · rename_i row rows hplace
    rw [hplace] at hok
    obtain ⟨hpend, hdead⟩ := hok
    have hat : s.place.at? = some (row.job_id, row.run_id) := by rw [hplace]; rfl
    cases outcome with
    | starts pid =>
      obtain ⟨u, hu, rfl⟩ := Option.map_eq_some_iff.1 hs
      rw [spawn_some hu]
      have hfree : ∀ t ∈ s.threads, ∀ run, t.names ≠ some (row.job_id, run) :=
        fun t ht => hpend.threads t ht row List.mem_cons_self
      refine h.spawn hat hdead hfree ?_ rfl ?_ ?_ ?_
        ⟨⟨hpend.listed, hpend.nodup, hpend.threads, hpend.unheld⟩, hdead.sole_spawn rfl⟩ <;> rw [hplace] <;> rfl
    | raises =>
      cases hs
      refine h.pass hat ?_ ?_ ?_ ?_ ⟨⟨hpend.listed, hpend.nodup, hpend.threads, hpend.unheld⟩, hdead⟩ <;>
        rw [hplace] <;> rfl
    | raisesAfter pid => cases hmeets
  · cases hs

theorem inv_advance (h : Inv s) (hs : advance s = some t) : Inv t := by
  have hok := h.place
  rw [advance] at hs
  split at hs
  · rename_i job i hplace
    obtain ⟨p, hp, rfl⟩ := Option.map_eq_some_iff.1 hs
    exact h.start hplace hp
  · rename_i job i hplace
    cases hs
    rw [hplace] at hok
    refine h.own ?_ ?_ hok.1 hok.2 rfl rfl ?_ ?_ trivial <;> rw [hplace] <;> rfl
  · rename_i row i rows hplace
    obtain ⟨p, hp, rfl⟩ := Option.map_eq_some_iff.1 hs
    exact h.append hplace hp
  · rename_i row i rows hplace
    cases hs
    rw [hplace] at hok
    obtain ⟨hpend, hnotin, hsole, hsame⟩ := hok
    have hat : s.place.at? = some (row.job_id, row.run_id) := by rw [hplace]; rfl
    have hnext : Inv { s with place := .reown row i rows } := by
      refine h.pass hat ?_ ?_ ?_ ?_
        ⟨⟨hpend.listed, hpend.nodup, hpend.threads, hpend.unheld⟩, hnotin, hsole, hsame⟩ <;> rw [hplace] <;> rfl
    refine hnext.hold rfl ?_
    rintro place rfl -
    refine ⟨⟨hpend.listed, hpend.nodup, hpend.threads, fun r hr run hb => ?_⟩, hnotin, hsole, hsame⟩
    dsimp only at hb
    rw [Function.update_apply] at hb
    split at hb
    · have hjob : row.job_id = r.job_id := Option.some.inj hb
      exact hnotin (hjob ▸ List.mem_map_of_mem hr)
    · exact hpend.unheld r hr run hb
  · rename_i row i rows hplace
    cases hs
    rw [hplace] at hok
    obtain ⟨hpend, hnotin, hsole, hsame⟩ := hok
    have hthreads : ∀ t ∈ .wait row.job_id row.run_id i :: s.threads, ∀ r ∈ rows, ∀ run,
        t.names ≠ some (r.job_id, run) := by
      intro t ht r hr run hj
      rcases List.mem_cons.1 ht with rfl | ht
      · have hjob : row.job_id = r.job_id := congrArg Prod.fst (Option.some.inj hj)
        exact hnotin (hjob ▸ List.mem_map_of_mem hr)
      · exact hpend.threads t ht r hr run hj
    refine h.own ?_ ?_ hsole hsame rfl rfl ?_ ?_ ⟨hpend.listed, hpend.nodup, hthreads, hpend.unheld⟩ <;>
      rw [hplace] <;> rfl
  · rename_i spawning row rows hplace
    cases hs
    exact h.lose hplace
  · rename_i spawning hplace
    cases hs
    refine h.goto ?_ trivial nofun nofun ?_ ?_
    · rw [hplace]
      rfl
    · intro r hr hrun hd
      rw [Dispatched, hplace] at hd
      rcases hd with hd | hd | ⟨r', hr', -⟩
      · cases hd
      · cases hd
      · cases hr'
    · intro run job hj
      rw [hplace] at hj
      cases hj
  · cases hs

theorem find_some (h : find job rows = some r) : r ∈ rows ∧ r.job_id = job := by
  refine ⟨List.mem_of_find?_eq_some h, ?_⟩
  simpa using List.find?_some h

/-- Out of `recover_orphans`, the job of a process that is not in the ledger yet has no row. -/
theorem Inv.ne_of_new (h : Inv s) (hrec : s.place.recovering = false) (hnew : s.place.new? = some (job, i))
    (hr : r ∈ s.rows) : r.job_id ≠ job := by
  have hok := h.place
  cases hplace : s.place with
  | start j k =>
    rw [hplace] at hok hnew
    have hjob : j.job_id = job := congrArg Prod.fst (Option.some.inj hnew)
    exact hjob ▸ hok.1.1.1 r hr
  | append row k rows =>
    rw [hplace] at hrec
    cases hrec
  | _ =>
    rw [hplace] at hnew
    cases hnew

theorem inv_operate {thread : Thread} (h : Inv s) (ht : thread ∈ s.threads) (hs : operate s thread = some t) :
    Inv t := by
  have hok := h.threads thread ht
  cases thread with
  | wait job run i =>
    dsimp only [operate] at hs
    split at hs
    · rename_i p hp
      split at hs
      · cases hs
      · rename_i halive
        cases hs
        have hdead : Dead s.procs job := by
          intro q hq hj
          obtain ⟨j, hj'⟩ := List.mem_iff_getElem?.1 hq
          cases hqa : q.alive with
          | false => rfl
          | true =>
            have hji : j = i := hok.2 j q hj' hqa hj
            rw [hji, hp] at hj'
            cases hj'
            exact absurd hqa halive
        refine h.swap ht ?_ ?_ ?_ nofun ?_
        · intro x hx
          rw [List.mem_singleton.1 hx]
          exact hdead
        · intro x hx job' run' hj
          rw [List.mem_singleton.1 hx] at hj
          exact .inl hj
        · rintro job' run' i' hw
          cases hw
          exact List.mem_singleton_self _
        · exact fun run' hr => .inl ⟨_, List.mem_singleton_self _, hr⟩
    · cases hs
  | get job =>
    dsimp only [operate] at hs
    split at hs
    · rename_i r hf
      obtain ⟨hr, rfl⟩ := find_some hf
      cases hs
      by_cases hrun : r.status = .running
      · rw [if_pos hrun]
        refine h.swap ht ?_ ?_ nofun nofun nofun
        · intro x hx
          rw [List.mem_singleton.1 hx]
          refine ⟨hok, fun p hp hj halive => ?_⟩
          obtain ⟨i, hi⟩ := List.mem_iff_getElem?.1 hp
          rcases h.ledger.covered i p hi halive with ⟨r', hr', hrj, -, hrp⟩ | hnew
          · rw [← hrp, eq_of_id h.ledger.nodup hr' hr (hrj.trans hj)]
          · exact absurd hj.symm (h.ne_of_new hok hnew hr)
        · intro x hx job' run' hj
          rw [List.mem_singleton.1 hx] at hj
          cases hj
          exact .inr ⟨hok, r, hr, rfl, rfl⟩
      · rw [if_neg hrun]
        exact h.swap ht nofun nofun nofun nofun nofun
    · cases hs
      exact h.swap ht nofun nofun nofun nofun nofun
  | kill job run pid =>
    cases hs
    have hf := h.fades (fades_killGroup pid s.procs)
    refine hf.swap ht ?_ ?_ nofun nofun ?_
    · intro x hx
      rw [List.mem_singleton.1 hx]
      intro p' hp' hj
      obtain ⟨p, hp, rfl⟩ := List.mem_map.1 hp'
      by_cases hpid : p.pid = pid
      · rw [if_pos hpid]
      · rw [if_neg hpid] at hj ⊢
        cases halive : p.alive with
        | false => rfl
        | true => exact absurd (hok.2 p hp hj halive) hpid
    · intro x hx job' run' hj
      rw [List.mem_singleton.1 hx] at hj
      exact .inl hj
    · exact fun run' hr => .inl ⟨_, List.mem_singleton_self _, hr⟩
  | finish job run =>
    cases hs
    refine (h.finish ht).swap ht ?_ ?_ nofun ?_ ?_
    · intro x hx
      rw [List.mem_singleton.1 hx]
      trivial
    · intro x hx job' run' hj
      rw [List.mem_singleton.1 hx] at hj
      cases hj
    · rintro job' run' hfin r hr hj hrun
      cases hfin
      obtain ⟨q, -, hj', -, -, hq⟩ := mem_attendFinish hr
      exact (hq hrun).2 (hj'.symm.trans hj)
    · exact fun run' hr => .inl ⟨_, List.mem_singleton_self _, hr⟩
  | release run =>
    cases hs
    refine (h.drop fun run job hb => release_some hb).swap ht nofun nofun nofun nofun ?_
    rintro run' hr
    cases hr
    exact .inr (Function.update_self ..)

theorem inv_publish {mode : Mode} {job : AttendJob} (h : Inv s) (hplace : s.place = .publish job) :
    Inv { s with
      by_run := Function.update s.by_run job.run_id (some job.job_id)
      place := if mode = .headless then .launch job else .idle } := by
  have hok := h.place
  rw [hplace] at hok
  have hat : s.place.at? = some (job.job_id, job.run_id) := by rw [hplace]; rfl
  by_cases hmode : mode = .headless
  · rw [if_pos hmode]
    have hnext : Inv { s with place := .launch job } := by
      refine h.pass hat ?_ ?_ ?_ ?_ hok <;> rw [hplace] <;> rfl
    refine hnext.hold rfl ?_
    rintro place rfl -
    exact hok
  · rw [if_neg hmode]
    have hheld := h.hold hat fun place hp _ => by rw [hp, hplace]; exact hok
    refine hheld.abandon hat ?_ ?_ hok.1.1 hok.1.2 <;> dsimp only <;> rw [hplace] <;> rfl

/-- **A step that meets the condition keeps the invariant.** -/
theorem inv_step {e : Event} (h : Inv s) (hmeets : Meets s e) (hs : step s e = some t) : Inv t := by
  cases e with
  | announce mode job =>
    dsimp only [step] at hs
    split at hs
    · rename_i hidle
      split at hs
      · cases hs
        exact h
      · cases hs
        exact h.announce hidle.1 hidle.2.1 hidle.2.2
    · cases hs
  | release run =>
    dsimp only [step] at hs
    split at hs
    · cases hs
      exact h.drop fun run job hb => release_some hb
    · cases hs
  | stop job =>
    dsimp only [step] at hs
    split at hs
    · cases hs
    · rename_i hrec
      cases hs
      exact h.stop (Bool.eq_false_iff.2 hrec)
  | exit i =>
    dsimp only [step] at hs
    split at hs
    · rename_i p hp
      split at hs
      · cases hs
        exact h.fades (fades_set hp)
      · cases hs
    · cases hs
  | restart =>
    cases hs
    exact h.restart (by simpa [Meets, meets] using hmeets)
  | query readable =>
    dsimp only [step] at hs
    split at hs
    · rename_i job hplace
      have hok := h.place
      rw [hplace] at hok
      have hat : s.place.at? = some (job.job_id, job.run_id) := by rw [hplace]; rfl
      split at hs
      · rename_i hfree
        cases hs
        have hclear : Clear s job.run_id := by
          intro r hr hrun hstatus
          rw [runningForRun_iff.2 ⟨r, hr, hrun, hstatus⟩, Bool.not_true, Bool.and_false] at hfree
          cases hfree
        refine h.pass hat ?_ ?_ ?_ ?_ ⟨hok, hclear⟩ <;> rw [hplace] <;> rfl
      · cases hs
        refine h.abandon hat ?_ ?_ hok.1 hok.2 <;> rw [hplace] <;> rfl
    · cases hs
  | publish mode =>
    dsimp only [step] at hs
    split at hs
    · rename_i job hplace
      cases hs
      exact inv_publish h hplace
    · cases hs
  | launch outcome => exact inv_launch h hmeets hs
  | list mode =>
    dsimp only [step] at hs
    split at hs
    · rename_i hplace
      cases hs
      exact h.list hplace
    · cases hs
  | probe alive =>
    obtain rfl : alive = false := by simpa [Meets, meets] using hmeets
    dsimp only [step] at hs
    split at hs
    · rename_i spawning row rows hplace
      have hok := h.place
      rw [hplace] at hok
      have hname := h.names.rows row (Pending.listed hok row List.mem_cons_self).1
      split at hs
      · cases hs
      · rename_i hgone
        have hpid : ∀ p ∈ s.procs, p.alive = true → p.pid ≠ row.pid :=
          fun p hp halive hpid => hgone ⟨⟨p, hp, halive, hpid⟩, rfl⟩
        rw [if_neg (by simp [hname.1])] at hs
        cases hs
        refine h.probe hplace hpid ?_
        cases spawning
        · exact .inr rfl
        · exact .inl rfl
    · cases hs
  | advance => exact inv_advance h hs
  | run thread =>
    dsimp only [step] at hs
    split at hs
    · rename_i ht
      exact inv_operate h ht hs
    · cases hs

/-! ## Runs -/

theorem inv_init : Inv init := by
  refine ⟨⟨nofun, nofun, nofun, nofun, nofun⟩, ⟨List.nodup_nil, nofun, nofun, nofun⟩, ⟨rfl, fun _ => rfl⟩, nofun, nofun,
    nofun⟩

/-- A live process is one of a job with a running row, or was launched just now. -/
theorem Inv.runs (h : Inv s) (hp : s.procs[i]? = some p) (halive : p.alive = true) :
    (∃ r ∈ s.rows, r.job_id = p.job ∧ r.run_id = p.run ∧ r.status = .running) ∨
      s.place.new? = some (p.job, i) ∧ Clear s p.run := by
  have hgiven := h.names.procs p (List.mem_of_getElem? hp)
  have hrow : ∀ r ∈ s.rows, r.job_id = p.job → r.run_id = p.run := by
    intro r hr hj
    have hgiven' := (h.names.rows r hr).2
    rw [hj, hgiven] at hgiven'
    exact (Option.some.inj hgiven').symm
  rcases h.ledger.covered i p hp halive with ⟨r, hr, hj, hrun, -⟩ | hnew
  · exact .inl ⟨r, hr, hj, hrow r hr hj, hrun⟩
  · have hok := h.place
    cases hplace : s.place with
    | start job k =>
      rw [hplace] at hok hnew
      have hj : job.job_id = p.job := congrArg Prod.fst (Option.some.inj hnew)
      have hgiven' := (h.names.place job.job_id job.run_id (by rw [hplace]; rfl)).2
      rw [hj, hgiven] at hgiven'
      have hrun : p.run = job.run_id := Option.some.inj hgiven'
      exact .inr ⟨hnew, hrun ▸ hok.2⟩
    | append row k rows =>
      rw [hplace] at hok hnew
      have hj : row.job_id = p.job := congrArg Prod.fst (Option.some.inj hnew)
      obtain ⟨hr, hrun⟩ := hok.1.listed row List.mem_cons_self
      exact .inl ⟨row, hr, hj, hrow row hr hj, hrun⟩
    | _ =>
      rw [hplace] at hnew
      cases hnew

/-- The rows that `recover_orphans` has not looked at are in the ledger. -/
theorem Inv.ahead_mem (h : Inv s) (hr : r ∈ s.place.ahead) : r ∈ s.rows ∧ r.status = .running := by
  have hok := h.place
  cases hplace : s.place with
  | probe _ rows =>
    rw [hplace] at hok hr
    exact hok.listed r hr
  | relaunch row rows | lose _ row rows | append row _ rows =>
    rw [hplace] at hok hr
    exact hok.1.listed r (List.mem_cons_of_mem _ hr)
  | hold row _ rows | reown row _ rows =>
    rw [hplace] at hok hr
    exact hok.1.listed r hr
  | _ =>
    rw [hplace] at hr
    cases hr

theorem Inv.alone (h : Inv s) {i j : ℕ} {p q : Proc} (hp : s.procs[i]? = some p) (hq : s.procs[j]? = some q)
    (hpa : p.alive = true) (hqa : q.alive = true) (hrun : p.run = q.run) : i = j := by
  rcases h.runs hp hpa with ⟨r, hr, hrj, hrr, hst⟩ | ⟨hnew, hclear⟩ <;>
    rcases h.runs hq hqa with ⟨r', hr', hrj', hrr', hst'⟩ | ⟨hnew', hclear'⟩
  · have hjob := h.ledger.single r hr r' hr' hst hst' (hrr.trans (hrun.trans hrr'.symm))
    exact h.ledger.one i j p q hp hq hpa hqa (hrj.symm.trans (hjob.trans hrj'))
  · exact absurd hst (hclear' r hr (hrr.trans hrun))
  · exact absurd hst' (hclear r' hr' (hrr'.trans hrun.symm))
  · rw [hnew] at hnew'
    exact congrArg Prod.snd (Option.some.inj hnew')

theorem sound_of_inv (h : Inv s) : Sound s := by
  refine ⟨fun i j p q hp hq hpa hqa hrun => h.alone hp hq hpa hqa hrun, h.tended, ?_⟩
  rintro run hidle (hrunning | ⟨job, p, hb, hp, hj⟩)
  · obtain ⟨r, hr, rfl, hrun⟩ := runningForRun_iff.1 hrunning
    rcases h.tended r hr hrun with (⟨i, p, -, -, -, ht⟩ | ht) | (hd | hd | ⟨r', hr', hj⟩)
    · exact hidle (.inl ⟨_, ht, rfl⟩)
    · exact hidle (.inl ⟨_, ht, rfl⟩)
    · exact hidle (.inr (.inl ⟨_, hd⟩))
    · exact hidle (.inr (.inr (.inl hd)))
    · obtain ⟨hr'', -⟩ := h.ahead_mem hr'
      obtain rfl := eq_of_id h.ledger.nodup hr'' hr hj
      exact hidle (.inr (.inr (.inr ⟨r', hr', rfl⟩)))
  · rcases h.letGo run job hb ⟨p, hp, hj⟩ with ht | hat
    · exact hidle (.inl ht)
    · exact hidle (.inr (.inl ⟨job, hat⟩))

/-- **One attendant a run, and no run held by a dead one**, in every state that a run reaches
when no launch raises after it has started a process, groom never ends with a process that is
not in the ledger, and `recover_orphans` finds no process with the pid of a row. -/
theorem attend_sound {es : List Event} (hmeets : Run.Along step Meets init es) (hr : Run.run step init es = some s) :
    Sound s := sound_of_inv (Run.inv_run_of (fun _ _ _ => inv_step) hmeets inv_init hr)

/-! ## Runs to try it on -/

/-- groom has started, and no row is left over. -/
def booted : List Event := [.list .headless, .advance]

/-- The run `r` is announced, and an attendant with the pid is launched on it. -/
def attended (job : Text) (pid : ℕ) : List Event :=
  [.announce .headless ⟨job, ['r'], 0⟩, .query true, .publish .headless, .launch (.starts pid)]

/-- An attendant ends with groom, the next groom restarts it, and it is stopped. -/
def restarted : List Event :=
  booted ++ attended ['a'] 7 ++ [.advance, .advance, .exit 0, .restart, .list .headless, .probe false,
    .launch (.starts 8), .advance, .advance, .advance, .advance, .stop ['a'], .run (.get ['a']),
    .run (.kill ['a'] ['r'] 8), .run (.finish ['a'] ['r']), .run (.release ['r']), .run (.wait ['a'] ['r'] 1),
    .run (.finish ['a'] ['r']), .run (.release ['r'])] ++ attended ['b'] 9

theorem attend_sound_restarted : ∃ s, Run.run step init restarted = some s ∧ s.procs.length = 3 ∧ Sound s := by
  have hdone : (Run.run step init restarted).any (fun s => s.procs.length = 3) = true := by decide
  obtain ⟨s, hs, hlen⟩ := (Option.any_eq_true _ _).1 hdone
  exact ⟨s, hs, of_decide_eq_true hlen, attend_sound (by decide) hs⟩

/-- groom restarts, the attendant lives on for a while and is skipped. -/
def skipped : List Event :=
  booted ++ attended ['a'] 7 ++ [.advance, .advance, .restart, .list .headless, .probe true, .advance, .exit 0]

/-- groom restarts when an attendant is launched and not yet recorded. -/
def unknown : List Event := booted ++ attended ['a'] 7 ++ [.restart] ++ booted ++ attended ['b'] 8

/-- The prompt cannot be written to the attendant, and the gate clears and comes again. -/
def promptLost : List Event :=
  booted ++ [.announce .headless ⟨['a'], ['r'], 0⟩, .query true, .publish .headless, .launch (.raisesAfter 7),
    .release ['r']] ++ attended ['b'] 8

/-- Nothing is at work, and a row is running or two attendants of one run are alive. -/
def broken (s : State) : Bool :=
  (s.threads = [] && s.place = .idle && s.rows.any fun r => r.status = .running) ||
    s.procs.zipIdx.any fun x => s.procs.zipIdx.any fun y =>
      x.1.alive && y.1.alive && x.1.run = y.1.run && x.2 ≠ y.2

theorem not_sound_of_broken (h : broken s = true) : ¬ Sound s := by
  intro hsound
  rw [broken, Bool.or_eq_true] at h
  rcases h with h | h
  · rw [Bool.and_eq_true, Bool.and_eq_true] at h
    obtain ⟨⟨hthreads, hplace⟩, hrow⟩ := h
    obtain ⟨r, hr, hrun⟩ := List.any_eq_true.1 hrow
    have hthreads := of_decide_eq_true hthreads
    have hplace := of_decide_eq_true hplace
    refine hsound.freed r.run_id ?_ (.inl (runningForRun_iff.2 ⟨r, hr, rfl, of_decide_eq_true hrun⟩))
    rw [AtWork, hthreads, hplace]
    rintro (⟨t, ht, -⟩ | ⟨job, hj⟩ | hd | ⟨r', hr', -⟩)
    · cases ht
    · cases hj
    · cases hd
    · cases hr'
  · obtain ⟨⟨p, i⟩, hp, h⟩ := List.any_eq_true.1 h
    obtain ⟨⟨q, j⟩, hq, h⟩ := List.any_eq_true.1 h
    simp only [Bool.and_eq_true, decide_eq_true_eq] at h
    obtain ⟨⟨⟨hpa, hqa⟩, hrun⟩, hne⟩ := h
    have hpi := List.mem_zipIdx_iff_getElem?.1 hp
    have hqj := List.mem_zipIdx_iff_getElem?.1 hq
    exact hne (hsound.alone i j p q hpi hqj hpa hqa hrun)

/-- A run that comes to a state that is not sound. -/
def Breaks (es : List Event) : Prop := ∃ s, Run.run step init es = some s ∧ ¬ Sound s

theorem breaks_of_broken {es : List Event} (h : (Run.run step init es).any broken = true) : Breaks es := by
  obtain ⟨s, hs, hb⟩ := (Option.any_eq_true _ _).1 h
  exact ⟨s, hs, not_sound_of_broken hb⟩

/-- **What an attendant that outlives groom, or one that is not recorded, does**: its row runs on
when it has ended, and a second one is launched beside it. -/
theorem attend_breaks : Breaks skipped ∧ Breaks unknown ∧ Breaks promptLost := by
  refine ⟨breaks_of_broken ?_, breaks_of_broken ?_, breaks_of_broken ?_⟩ <;> decide

end Stablemate.Attend
