import Stablemate.Model.Dispatch

/-!
# Dispatch queues are exclusive and bounded, under a condition

* `Ledger`, `Crew`, `Account`: what the rows and processes, the threads, and the slots keep.
* `inv_step`: a step that meets the condition keeps them.
* `dispatch_sound`: **along a run whose steps meet the condition, no item is launched twice or
  after it was cancelled, and no queue has more processes than its concurrency.**
-/

namespace Stablemate.Dispatch

open Pool

variable {config : Config} {start s t : State} {rows : List Row} {procs : List Proc}
  {threads : List Thread} {item item' queue : Text} {r r' : Row} {f : Row → Row}

/-! ## Rows -/

theorem find_some (h : find item rows = some r) : r ∈ rows ∧ r.item_id = item := by
  refine ⟨List.mem_of_find?_eq_some h, ?_⟩
  simpa using List.find?_some h

theorem find_of_mem (hnodup : (rows.map Row.item_id).Nodup) (h : r ∈ rows) : find r.item_id rows = some r := by
  cases hf : find r.item_id rows with
  | none =>
    have := List.find?_eq_none.1 hf r h
    simp at this
  | some r' =>
    obtain ⟨hmem, hid⟩ := find_some hf
    rw [List.inj_on_of_nodup_map hnodup hmem h hid]

theorem find_update (hid : ∀ r, (f r).item_id = r.item_id) (x : Text) (rows : List Row) :
    find x (update item f rows) = if x = item then (find item rows).map f else find x rows := by
  rw [find, update, List.find?_map]
  have hcomp : ((fun r : Row => decide (r.item_id = x)) ∘ fun r => if r.item_id = item then f r else r) =
      fun r => decide (r.item_id = x) := by
    funext r
    dsimp only [Function.comp]
    split
    · rw [hid]
    · rfl
  rw [hcomp, ← find]
  split
  · rename_i hx
    subst hx
    cases hf : find x rows with
    | none => rfl
    | some r => simp [(find_some hf).2]
  · rename_i hx
    cases hf : find x rows with
    | none => rfl
    | some r =>
      have hne : ¬ r.item_id = item := fun h => hx ((find_some hf).2.symm.trans h)
      simp [hne]

theorem ids_update (hid : ∀ r, (f r).item_id = r.item_id) (rows : List Row) :
    (update item f rows).map Row.item_id = rows.map Row.item_id := by
  rw [update, List.map_map]
  refine List.map_congr_left fun r _ => ?_
  dsimp only [Function.comp]
  split
  · exact hid r
  · rfl

/-- An update leaves the other rows as they are. -/
theorem update_of_not_mem (h : item ∉ rows.map Row.item_id) : update item f rows = rows := by
  refine (List.map_congr_left fun r hr => if_neg fun hid => h ?_).trans (List.map_id rows)
  exact hid ▸ List.mem_map_of_mem hr

theorem update_perm (hnodup : (rows.map Row.item_id).Nodup) (h : find item rows = some r) :
    ∃ rest, rows.Perm (r :: rest) ∧ (update item f rows).Perm (f r :: rest) := by
  obtain ⟨hmem, hid⟩ := find_some h
  obtain ⟨pre, post, rfl⟩ := List.append_of_mem hmem
  rw [List.map_append, List.map_cons, List.nodup_append, List.nodup_cons] at hnodup
  obtain ⟨-, ⟨hpost, -⟩, hpre⟩ := hnodup
  refine ⟨pre ++ post, List.perm_middle, ?_⟩
  have h1 : update item f pre = pre := update_of_not_mem fun hm =>
    hpre item hm r.item_id List.mem_cons_self hid.symm
  have h2 : update item f post = post := update_of_not_mem (hid ▸ hpost)
  have hsplit : update item f (pre ++ r :: post) = pre ++ f r :: post := by
    rw [update, List.map_append, List.map_cons, ← update, ← update, h1, h2, if_pos hid]
  rw [hsplit]
  exact List.perm_middle

/-- A count of rows changes by the row that is updated. -/
theorem countP_update (hnodup : (rows.map Row.item_id).Nodup) (h : find item rows = some r) (p : Row → Bool) :
    (update item f rows).countP p + (if p r then 1 else 0) = rows.countP p + (if p (f r) then 1 else 0) := by
  obtain ⟨rest, h1, h2⟩ := update_perm (f := f) hnodup h
  rw [h1.countP_eq, h2.countP_eq, List.countP_cons, List.countP_cons]
  omega

theorem has_iff {p : Status → Bool} : has item p rows = true ↔ ∃ r, find item rows = some r ∧ p r.status = true := by
  rw [has]
  cases find item rows <;> simp

/-! ## The invariant -/

/-- The rows of a queue that run and were not left over. -/
def running (start : State) (queue : Text) (rows : List Row) : ℕ :=
  rows.countP fun r => r.queue = queue && r.status = .running && !leftover start r.item_id

/-- Rows, processes and cancelled items. -/
structure Ledger (start : State) (rows : List Row) (procs : List Proc) (cancelled : List Text) : Prop where
  ids : (rows.map Row.item_id).Nodup
  once : (procs.map Proc.item).Nodup
  pending : ∀ item r, find item rows = some r → r.status = .pending →
    leftover start item = false ∧ r.pid = none
  known : ∀ item, leftover start item = true → (find item rows).isSome = true
  /-- A row that was set running here is that of a process. -/
  running : ∀ item r, find item rows = some r → r.status = .running → leftover start item = false →
    ∃ p ∈ procs, p.item = item ∧ r.pid = some p.pid
  /-- A process is one of an item that was not left over. -/
  procs : ∀ p ∈ procs, leftover start p.item = false ∧ ∃ r, find p.item rows = some r ∧ r.queue = p.queue
  cancelled : ∀ item ∈ cancelled, has item (· = .cancelled) rows = true

/-- An item of a list that `_drain` has read. -/
def Listed (start : State) (rows : List Row) (procs : List Proc) (queue item : Text) : Prop :=
  leftover start item = false ∧
    ∃ r, find item rows = some r ∧ r.queue = queue ∧ (r.pid = none ∨ item ∈ procs.map Proc.item)

/-- What a thread relies on. -/
def Thread.Ok (start : State) (rows : List Row) (procs : List Proc) : Thread → Prop
  | .acquire queue items => ∀ i ∈ items, Listed start rows procs queue i
  | .launch queue item items | .giveBack queue item items | .fail queue item items =>
    ∀ i ∈ item :: items, Listed start rows procs queue i
  | .start queue item proc items =>
    (∀ i ∈ items, Listed start rows procs queue i) ∧
      (∃ p, procs[proc]? = some p ∧ p.item = item ∧ p.queue = queue) ∧
        ∃ r, find item rows = some r ∧ r.pid = none
  | .own queue item proc =>
    ∃ p r, procs[proc]? = some p ∧ p.item = item ∧ p.queue = queue ∧ find item rows = some r ∧
      r.queue = queue ∧ r.status ≠ .pending ∧ r.pid = some p.pid
  | .kill queue item pid =>
    ∃ r, find item rows = some r ∧ r.queue = queue ∧ r.status ≠ .pending ∧
      (leftover start item = false → r.pid ≠ none ∧ (r.status = .running → r.pid = pid))
  | .cancel queue item =>
    ∃ r, find item rows = some r ∧ r.queue = queue ∧ r.status ≠ .pending ∧
      (leftover start item = false → r.pid ≠ none ∧
        (r.status = .running → ∀ p ∈ procs, p.item = item → p.code ≠ none))
  | _ => True

/-- The process that a thread is to set running. -/
def Thread.starts : Thread → Option ℕ
  | .start _ _ proc _ => some proc
  | _ => none

/-- The threads, and the processes that are alive. -/
structure Crew (start : State) (rows : List Row) (procs : List Proc) (threads : List Thread) : Prop where
  ok : ∀ t ∈ threads, t.Ok start rows procs
  starts : (threads.filterMap Thread.starts).Nodup
  /-- A process that is alive is about to be set running, or its row says that it runs. -/
  alive : ∀ i p, procs[i]? = some p → p.code = none →
    (∃ items, Thread.start p.queue p.item i items ∈ threads) ∨ has p.item (· = .running) rows = true

/-- The slots that are in use. -/
def used (start : State) (queue : Text) (rows : List Row) (threads : List Thread) : ℕ :=
  threads.countP (Thread.holds queue) + running start queue rows

/-- Slots are free or in use, but for those of the rows that were running. -/
def Account (config : Config) (start : State) (slots : Text → Option Slot) (rows : List Row)
    (threads : List Thread) : Prop :=
  ∀ queue concurrency, config queue = some concurrency →
    match slots queue with
    | some slot => slot.free + used start queue rows threads = concurrency - slot.occupied
    | none => used start queue rows threads = 0

structure Inv (config : Config) (start s : State) : Prop where
  ledger : Ledger start s.rows s.procs s.cancelled
  crew : Crew start s.rows s.procs s.threads
  account : Account config start s.slots s.rows s.threads

/-! ## How rows and processes change -/

/-- What an operation may do to a row: it does not make it pending again, it sets it running or
gives it a pid only when it has none, and then it is the row of a process. -/
structure Moved (procs : List Proc) (r r' : Row) : Prop where
  queue : r'.queue = r.queue
  pending : r'.status = .pending → r.status = .pending
  running : r'.status = .running → r.status = .running ∨ r.pid = none
  pid : r'.pid = r.pid ∨ r.pid = none ∧ r.item_id ∈ procs.map Proc.item

def Moves (procs : List Proc) (rows rows' : List Row) : Prop :=
  ∀ item r, find item rows = some r → ∃ r', find item rows' = some r' ∧ Moved procs r r'

theorem Moved.refl (procs : List Proc) (r : Row) : Moved procs r r := ⟨rfl, id, .inl, .inl rfl⟩

theorem Moved.pid_eq (h : Moved procs r r') (hpid : r.pid ≠ none) : r'.pid = r.pid :=
  h.pid.resolve_right fun hn => hpid hn.1

theorem moves_update (hid : ∀ r, (f r).item_id = r.item_id)
    (h : ∀ r, find item rows = some r → Moved procs r (f r)) : Moves procs rows (update item f rows) := by
  intro x r hr
  rw [find_update hid]
  split
  · rename_i hx
    subst hx
    exact ⟨f r, by rw [hr, Option.map_some], h r hr⟩
  · exact ⟨r, hr, .refl procs r⟩

theorem Listed.move {rows' : List Row} (h : Listed start rows procs queue item) (hm : Moves procs rows rows') :
    Listed start rows' procs queue item := by
  obtain ⟨hnew, r, hr, hq, hpid⟩ := h
  obtain ⟨r', hr', hmoved⟩ := hm item r hr
  refine ⟨hnew, r', hr', hmoved.queue.trans hq, ?_⟩
  rcases hmoved.pid with heq | ⟨-, hmem⟩
  · rwa [heq]
  · exact .inr ((find_some hr).2 ▸ hmem)

/-- A thread goes on to rely on what it relied on, if no row that it is to set running has got a
pid. -/
theorem Thread.Ok.move {rows' : List Row} {t : Thread} (h : t.Ok start rows procs) (hm : Moves procs rows rows')
    (hstart : ∀ queue item proc items, t = .start queue item proc items →
      ∀ r, find item rows = some r → r.pid = none → ∀ r', find item rows' = some r' → r'.pid = none) :
    t.Ok start rows' procs := by
  cases t with
  | acquire queue items => exact fun i hi => (h i hi).move hm
  | launch queue item items => exact fun i hi => (h i hi).move hm
  | giveBack queue item items => exact fun i hi => (h i hi).move hm
  | fail queue item items => exact fun i hi => (h i hi).move hm
  | start queue item proc items =>
    obtain ⟨hitems, hproc, r, hr, hpid⟩ := h
    obtain ⟨r', hr', -⟩ := hm item r hr
    exact ⟨fun i hi => (hitems i hi).move hm, hproc, r', hr', hstart _ _ _ _ rfl r hr hpid r' hr'⟩
  | own queue item proc =>
    obtain ⟨p, r, hp, hitem, hpq, hr, hq, hst, hpid⟩ := h
    obtain ⟨r', hr', hmoved⟩ := hm item r hr
    exact ⟨p, r', hp, hitem, hpq, hr', hmoved.queue.trans hq, fun hpend => hst (hmoved.pending hpend),
      (hmoved.pid_eq (by simp [hpid])).trans hpid⟩
  | kill queue item pid =>
    obtain ⟨r, hr, hq, hst, hnew⟩ := h
    obtain ⟨r', hr', hmoved⟩ := hm item r hr
    refine ⟨r', hr', hmoved.queue.trans hq, fun hpend => hst (hmoved.pending hpend), fun hleft => ?_⟩
    obtain ⟨hpid, hrun⟩ := hnew hleft
    have heq := hmoved.pid_eq hpid
    exact ⟨heq ▸ hpid, fun hr'run => heq.trans (hrun ((hmoved.running hr'run).resolve_right hpid))⟩
  | cancel queue item =>
    obtain ⟨r, hr, hq, hst, hnew⟩ := h
    obtain ⟨r', hr', hmoved⟩ := hm item r hr
    refine ⟨r', hr', hmoved.queue.trans hq, fun hpend => hst (hmoved.pending hpend), fun hleft => ?_⟩
    obtain ⟨hpid, hrun⟩ := hnew hleft
    exact ⟨hmoved.pid_eq hpid ▸ hpid, fun hr'run => hrun ((hmoved.running hr'run).resolve_right hpid)⟩
  | _ => trivial

/-- Processes are added and end. -/
structure Grows (procs procs' : List Proc) : Prop where
  keep : ∀ (i : ℕ) (p : Proc), procs[i]? = some p →
    ∃ p', procs'[i]? = some p' ∧ p'.item = p.item ∧ p'.queue = p.queue ∧ p'.pid = p.pid
  /-- A process with an item that had one has it from before, and has not come alive. -/
  old : ∀ p' ∈ procs', p'.item ∈ procs.map Proc.item →
    ∃ p ∈ procs, p'.item = p.item ∧ (p.code ≠ none → p'.code ≠ none)

variable {procs' : List Proc} {cancelled : List Text}

theorem Grows.mem (h : Grows procs procs') (hi : item ∈ procs.map Proc.item) : item ∈ procs'.map Proc.item := by
  obtain ⟨p, hp, rfl⟩ := List.mem_map.1 hi
  obtain ⟨i, hi, hget⟩ := List.mem_iff_getElem.1 hp
  obtain ⟨p', hp', hitem, -⟩ := h.keep i p (by rw [List.getElem?_eq_getElem hi, hget])
  exact hitem ▸ List.mem_map_of_mem (List.mem_of_getElem? hp')

theorem Listed.grow (h : Listed start rows procs queue item) (hg : Grows procs procs') :
    Listed start rows procs' queue item := by
  obtain ⟨hnew, r, hr, hq, hpid⟩ := h
  exact ⟨hnew, r, hr, hq, hpid.imp_right hg.mem⟩

theorem Thread.Ok.grow {t : Thread} (h : t.Ok start rows procs) (hl : Ledger start rows procs cancelled)
    (hg : Grows procs procs') : t.Ok start rows procs' := by
  cases t with
  | acquire queue items => exact fun i hi => (h i hi).grow hg
  | launch queue item items => exact fun i hi => (h i hi).grow hg
  | giveBack queue item items => exact fun i hi => (h i hi).grow hg
  | fail queue item items => exact fun i hi => (h i hi).grow hg
  | start queue item proc items =>
    obtain ⟨hitems, ⟨p, hp, hitem, hq⟩, hr⟩ := h
    obtain ⟨p', hp', hitem', hq', -⟩ := hg.keep proc p hp
    exact ⟨fun i hi => (hitems i hi).grow hg, ⟨p', hp', hitem'.trans hitem, hq'.trans hq⟩, hr⟩
  | own queue item proc =>
    obtain ⟨p, r, hp, hitem, hpq, hr, hq, hst, hpid⟩ := h
    obtain ⟨p', hp', hitem', hq', hpid'⟩ := hg.keep proc p hp
    exact ⟨p', r, hp', hitem'.trans hitem, hq'.trans hpq, hr, hq, hst, hpid.trans (by rw [hpid'])⟩
  | kill queue item pid => exact h
  | cancel queue item =>
    obtain ⟨r, hr, hq, hst, hnew⟩ := h
    refine ⟨r, hr, hq, hst, fun hleft => ⟨(hnew hleft).1, fun hrun p' hp' hitem => ?_⟩⟩
    -- the row runs, so its item has a process from before
    obtain ⟨p, hp, hpi, -⟩ := hl.running item r hr hrun hleft
    obtain ⟨q, hq, hqi, hcode⟩ := hg.old p' hp' (by rw [hitem, ← hpi]; exact List.mem_map_of_mem hp)
    exact hcode ((hnew hleft).2 hrun q hq (hqi.symm.trans hitem))
  | _ => trivial

/-! ## Steps of the invariant -/

variable {rows' : List Row} {th : Thread} {ts : List Thread} {slots : Text → Option Slot} {concurrency : ℕ}

theorem Moves.refl (procs : List Proc) (rows : List Row) : Moves procs rows rows := fun _ r hr => ⟨r, hr, .refl procs r⟩

/-- An operation on a row keeps the ledger. -/
theorem Ledger.update (h : Ledger start rows procs cancelled) (hid : ∀ r, (f r).item_id = r.item_id)
    (hm : ∀ r, find item rows = some r → Moved procs r (f r))
    (hpid : ∀ r, (f r).status = .pending → (f r).pid = r.pid)
    (hrun : ∀ r, find item rows = some r → (f r).status = .running → leftover start item = false →
      ∃ p ∈ procs, p.item = item ∧ (f r).pid = some p.pid)
    (hcancel : ∀ r, find item rows = some r → r.status = .cancelled → (f r).status = .cancelled) :
    Ledger start (update item f rows) procs cancelled where
  ids := by
    rw [ids_update hid]
    exact h.ids
  once := h.once
  pending x r' hr' hpend := by
    rw [find_update hid] at hr'
    split at hr'
    · rename_i hx
      subst hx
      obtain ⟨r, hr, rfl⟩ := Option.map_eq_some_iff.1 hr'
      obtain ⟨hleft, hnone⟩ := h.pending x r hr ((hm r hr).pending hpend)
      exact ⟨hleft, (hpid r hpend).trans hnone⟩
    · exact h.pending x r' hr' hpend
  known x hx := by
    obtain ⟨r, hr⟩ := Option.isSome_iff_exists.1 (h.known x hx)
    obtain ⟨r', hr', -⟩ := moves_update hid hm x r hr
    rw [hr']
    rfl
  running x r' hr' hr'run hleft := by
    rw [find_update hid] at hr'
    split at hr'
    · rename_i hx
      subst hx
      obtain ⟨r, hr, rfl⟩ := Option.map_eq_some_iff.1 hr'
      exact hrun r hr hr'run hleft
    · exact h.running x r' hr' hr'run hleft
  procs p hp := by
    obtain ⟨hleft, r, hr, hq⟩ := h.procs p hp
    obtain ⟨r', hr', hmoved⟩ := moves_update hid hm p.item r hr
    exact ⟨hleft, r', hr', hmoved.queue.trans hq⟩
  cancelled x hx := by
    obtain ⟨r, hr, hst⟩ := has_iff.1 (h.cancelled x hx)
    rw [has_iff, find_update hid]
    split
    · rename_i hxi
      subst hxi
      exact ⟨f r, by rw [hr, Option.map_some], by simpa using hcancel r hr (by simpa using hst)⟩
    · exact ⟨r, hr, hst⟩

/-- A thread that goes on keeps the crew. -/
theorem Crew.advance (h : Crew start rows procs threads) (ht : th ∈ threads) (hm : Moves procs rows rows')
    (hpid : ∀ queue item proc items, Thread.start queue item proc items ∈ threads.erase th →
      ∀ r, find item rows = some r → r.pid = none → ∀ r', find item rows' = some r' → r'.pid = none)
    (hts : ∀ x ∈ ts, x.Ok start rows' procs) (hstarts : (ts.filterMap Thread.starts).Sublist th.starts.toList)
    (halive : ∀ i p, procs[i]? = some p → p.code = none →
      th.starts = some i ∨ has p.item (· = .running) rows = true →
        has p.item (· = .running) rows' = true ∨ ∃ items, Thread.start p.queue p.item i items ∈ ts) :
    Crew start rows' procs (swap th ts threads) where
  ok x hx := by
    rcases mem_swap.1 hx with hx | hx
    · exact hts x hx
    · refine (h.ok x (List.mem_of_mem_erase hx)).move hm ?_
      rintro queue item proc items rfl
      exact hpid queue item proc items hx
  starts := nodup_swap ht h.starts hstarts
  alive i p hp hcode := by
    have hcase : th.starts = some i ∨ has p.item (· = .running) rows = true ∨
        ∃ items, Thread.start p.queue p.item i items ∈ threads.erase th := by
      rcases h.alive i p hp hcode with ⟨items, hmem⟩ | hrun
      · by_cases heq : Thread.start p.queue p.item i items = th
        · exact .inl (heq ▸ rfl)
        · exact .inr (.inr ⟨items, (List.mem_erase_of_ne heq).2 hmem⟩)
      · exact .inr (.inl hrun)
    rcases hcase with hth | hrun | ⟨items, hmem⟩
    · rcases halive i p hp hcode (.inl hth) with hrun | ⟨items, hmem⟩
      · exact .inr hrun
      · exact .inl ⟨items, mem_swap.2 (.inl hmem)⟩
    · rcases halive i p hp hcode (.inr hrun) with hrun | ⟨items, hmem⟩
      · exact .inr hrun
      · exact .inl ⟨items, mem_swap.2 (.inl hmem)⟩
    · exact .inl ⟨items, mem_swap.2 (.inr hmem)⟩

/-- A thread goes on and no row changes. -/
theorem Crew.go (h : Crew start rows procs threads) (ht : th ∈ threads) (hstart : th.starts = none)
    (hts : ∀ x ∈ ts, x.Ok start rows procs) (hstarts : ts.filterMap Thread.starts = []) :
    Crew start rows procs (swap th ts threads) := by
  refine h.advance ht (.refl procs rows) ?_ hts (by rw [hstarts]; exact List.nil_sublist _) ?_
  · intro queue item proc items _ r hr hpid r' hr'
    rw [hr] at hr'
    cases hr'
    exact hpid
  · rintro i p - - (h | h)
    · rw [hstart] at h
      cases h
    · exact .inl h

/-- Rows change, and no pid is given and no process taken from running. -/
theorem Crew.move (h : Crew start rows procs threads) (hm : Moves procs rows rows')
    (hpid : ∀ x r, find x rows = some r → r.pid = none → ∀ r', find x rows' = some r' → r'.pid = none)
    (hrun : ∀ p ∈ procs, p.code = none → has p.item (· = .running) rows = true →
      has p.item (· = .running) rows' = true) : Crew start rows' procs threads where
  ok x hx := (h.ok x hx).move hm fun _ item _ _ _ => hpid item
  starts := h.starts
  alive i p hp hcode := (h.alive i p hp hcode).imp_right (hrun p (List.mem_of_getElem? hp) hcode)

/-- An update that leaves the pids as they are keeps the crew, if no process is alive whose row it
takes from running. -/
theorem Crew.update (h : Crew start rows procs threads) (hid : ∀ r, (f r).item_id = r.item_id)
    (hpid : ∀ r, (f r).pid = r.pid) (hm : ∀ r, find item rows = some r → Moved procs r (f r))
    (hdead : ∀ r, find item rows = some r → r.status = .running → (f r).status ≠ .running →
      ∀ p ∈ procs, p.item = item → p.code ≠ none) :
    Crew start (update item f rows) procs threads := by
  refine h.move (moves_update hid hm) ?_ ?_
  · intro x r hr hnone r' hr'
    rw [find_update hid] at hr'
    split at hr'
    · rename_i hx
      subst hx
      obtain ⟨r₀, hr₀, rfl⟩ := Option.map_eq_some_iff.1 hr'
      rw [hr] at hr₀
      cases hr₀
      exact (hpid r).trans hnone
    · rw [hr] at hr'
      cases hr'
      exact hnone
  · intro p hp hcode hrun
    obtain ⟨r, hr, hrun⟩ := has_iff.1 hrun
    rw [has_iff, find_update hid]
    split
    · rename_i hx
      refine ⟨f r, by rw [← hx, hr, Option.map_some], ?_⟩
      by_contra hnot
      exact hdead r (hx ▸ hr) (by simpa using hrun) (by simpa using hnot) p hp hx hcode
    · exact ⟨r, hr, hrun⟩

/-- A thread that is started keeps the crew. -/
theorem Crew.cons (h : Crew start rows procs threads) (hok : th.Ok start rows procs) (hstart : th.starts = none) :
    Crew start rows procs (th :: threads) where
  ok x hx := by
    rcases List.mem_cons.1 hx with rfl | hx
    · exact hok
    · exact h.ok x hx
  starts := by
    rw [List.filterMap_cons_none hstart]
    exact h.starts
  alive i p hp hcode := (h.alive i p hp hcode).imp_left fun ⟨items, hmem⟩ => ⟨items, List.mem_cons_of_mem _ hmem⟩

/-! ## Processes that end -/

/-- Some processes have ended, and nothing else. -/
structure Ended (procs procs' : List Proc) : Prop where
  length : procs'.length = procs.length
  same : ∀ (i : ℕ) (p' : Proc), procs'[i]? = some p' → ∃ p, procs[i]? = some p ∧ p'.item = p.item ∧
    p'.queue = p.queue ∧ p'.pid = p.pid ∧ (p'.code = none → p.code = none)

theorem Ended.keep (h : Ended procs procs') {i : ℕ} {p : Proc} (hp : procs[i]? = some p) :
    ∃ p', procs'[i]? = some p' ∧ p'.item = p.item ∧ p'.queue = p.queue ∧ p'.pid = p.pid := by
  have hi : i < procs'.length := by
    rw [h.length]
    exact (List.getElem?_eq_some_iff.1 hp).1
  obtain ⟨q, hq, hitem, hqueue, hpid, -⟩ := h.same i _ (List.getElem?_eq_getElem hi)
  rw [hp] at hq
  cases hq
  exact ⟨_, List.getElem?_eq_getElem hi, hitem, hqueue, hpid⟩

theorem Ended.mem (h : Ended procs procs') {p' : Proc} (hp : p' ∈ procs') :
    ∃ p ∈ procs, p'.item = p.item ∧ p'.queue = p.queue ∧ p'.pid = p.pid ∧ (p'.code = none → p.code = none) := by
  obtain ⟨i, hi, rfl⟩ := List.mem_iff_getElem.1 hp
  obtain ⟨p, hp, h'⟩ := h.same i _ (List.getElem?_eq_getElem hi)
  exact ⟨p, List.mem_of_getElem? hp, h'⟩

theorem Ended.items (h : Ended procs procs') : procs'.map Proc.item = procs.map Proc.item := by
  refine List.ext_getElem (by simp [h.length]) fun i h₁ h₂ => ?_
  rw [List.length_map] at h₁ h₂
  obtain ⟨p, hp, hitem, -⟩ := h.same i _ (List.getElem?_eq_getElem h₁)
  rw [List.getElem?_eq_getElem h₂] at hp
  cases hp
  rw [List.getElem_map, List.getElem_map, hitem]

theorem Ended.grows (h : Ended procs procs') : Grows procs procs' where
  keep _ _ hp := h.keep hp
  old p' hp' _ := by
    obtain ⟨p, hp, hitem, -, -, hcode⟩ := h.mem hp'
    exact ⟨p, hp, hitem, fun hne hnone => hne (hcode hnone)⟩

theorem Ledger.ended (h : Ledger start rows procs cancelled) (he : Ended procs procs') :
    Ledger start rows procs' cancelled where
  ids := h.ids
  once := he.items ▸ h.once
  pending := h.pending
  known := h.known
  running item r hr hrun hleft := by
    obtain ⟨p, hp, hitem, hpid⟩ := h.running item r hr hrun hleft
    obtain ⟨i, hi, rfl⟩ := List.mem_iff_getElem.1 hp
    obtain ⟨p', hp', hitem', -, hpid'⟩ := he.keep (List.getElem?_eq_getElem hi)
    exact ⟨p', List.mem_of_getElem? hp', hitem'.trans hitem, hpid.trans (by rw [hpid'])⟩
  procs p' hp' := by
    obtain ⟨p, hp, hitem, hqueue, -⟩ := he.mem hp'
    rw [hitem, hqueue]
    exact h.procs p hp
  cancelled := h.cancelled

theorem Crew.ended (h : Crew start rows procs threads) (hl : Ledger start rows procs cancelled)
    (he : Ended procs procs') : Crew start rows procs' threads where
  ok x hx := (h.ok x hx).grow hl he.grows
  starts := h.starts
  alive i p' hp' hcode := by
    obtain ⟨p, hp, hitem, hqueue, -, hnone⟩ := he.same i p' hp'
    rw [hitem, hqueue]
    exact h.alive i p hp (hnone hcode)

theorem ended_killGroup (pid : Option ℕ) (code : ℤ) (procs : List Proc) : Ended procs (killGroup pid code procs) where
  length := by simp [killGroup]
  same i p' hp' := by
    rw [killGroup, List.getElem?_map] at hp'
    obtain ⟨p, hp, rfl⟩ := Option.map_eq_some_iff.1 hp'
    refine ⟨p, hp, ?_⟩
    split
    · exact ⟨rfl, rfl, rfl, fun h => by simp at h⟩
    · exact ⟨rfl, rfl, rfl, id⟩

theorem ended_set {i : ℕ} {p : Proc} (hp : procs[i]? = some p) (code : ℤ) :
    Ended procs (procs.set i { p with code := some code }) where
  length := List.length_set
  same j p' hp' := by
    by_cases hij : i = j
    · subst hij
      rw [List.getElem?_set_self (List.getElem?_eq_some_iff.1 hp).1] at hp'
      cases hp'
      exact ⟨p, hp, rfl, rfl, rfl, fun h => by simp at h⟩
    · rw [List.getElem?_set_ne hij] at hp'
      exact ⟨p', hp', rfl, rfl, rfl, id⟩

/-- The processes with the pid have ended. -/
theorem killGroup_dead {pid : Option ℕ} {code : ℤ} {p : Proc} (hp : p ∈ killGroup pid code procs)
    (hpid : some p.pid = pid) : p.code ≠ none := by
  obtain ⟨q, -, rfl⟩ := List.mem_map.1 hp
  split
  · simp
  · rename_i hnot
    rw [if_neg hnot] at hpid
    exact fun hcode => hnot ⟨hcode, hpid⟩

/-! ## Slots in use -/

theorem used_swap (start : State) (rows : List Row) (ht : th ∈ threads) (ts : List Thread) (queue : Text) :
    used start queue rows (swap th ts threads) + (if th.holds queue then 1 else 0) =
      ts.countP (Thread.holds queue) + used start queue rows threads := by
  have := countP_swap ht ts (Thread.holds queue)
  rw [used, used]
  omega

theorem running_update (start : State) (hids : (rows.map Row.item_id).Nodup) (hid : ∀ r, (f r).item_id = r.item_id)
    (hqueue : ∀ r, (f r).queue = r.queue) (hr : find item rows = some r) (queue : Text) :
    running start queue (update item f rows) +
        (if r.queue = queue ∧ r.status = .running ∧ leftover start item = false then 1 else 0) =
      running start queue rows +
        (if r.queue = queue ∧ (f r).status = .running ∧ leftover start item = false then 1 else 0) := by
  have h := countP_update (f := f) hids hr
    fun r => r.queue = queue && r.status = .running && !leftover start r.item_id
  have hitem := (find_some hr).2
  simpa [running, hid, hqueue, hitem, and_assoc] using h

/-- The slots that are in use stay so, and no semaphore changes. -/
theorem Account.of_used (h : Account config start slots rows threads) {threads' : List Thread}
    (hu : ∀ queue, used start queue rows' threads' = used start queue rows threads) :
    Account config start slots rows' threads' := by
  intro queue concurrency hc
  have := h queue concurrency hc
  rwa [hu]

/-- A thread that holds no slot goes on as threads that hold none. -/
theorem Account.go (h : Account config start slots rows threads) (ht : th ∈ threads)
    (hth : ∀ queue, th.holds queue = false) (hts : ∀ x ∈ ts, ∀ queue, x.holds queue = false) :
    Account config start slots rows (swap th ts threads) := by
  refine h.of_used fun queue => ?_
  have hused := used_swap start rows ht ts queue
  have hcount : ts.countP (Thread.holds queue) = 0 := List.countP_eq_zero.2 fun x hx => by simp [hts x hx queue]
  rw [hth queue, hcount] at hused
  simpa using hused

theorem Account.slotOf (h : Account config start s.slots s.rows s.threads) (hc : config queue = some concurrency) :
    Account config start (slotOf queue concurrency s).slots s.rows s.threads := by
  rw [Dispatch.slotOf]
  cases hslot : s.slots queue with
  | some slot => exact h
  | none =>
    intro q c hq
    have hold := h q c hq
    by_cases hqq : q = queue
    · subst hqq
      rw [hslot] at hold
      rw [hc] at hq
      cases hq
      simp [hold]
    · simpa [hqq] using hold

theorem slotOf_rows (queue : Text) (concurrency : ℕ) (s : State) :
    (slotOf queue concurrency s).rows = s.rows ∧ (slotOf queue concurrency s).threads = s.threads ∧
      (slotOf queue concurrency s).procs = s.procs ∧ (slotOf queue concurrency s).cancelled = s.cancelled := by
  rw [slotOf]
  cases s.slots queue <;> exact ⟨rfl, rfl, rfl, rfl⟩

theorem holds_eq {q : Text} (h : th.holds queue = true) : th.holds q = decide (queue = q) := by
  cases th with
  | launch | giveBack | start | slot | release =>
    simp only [Thread.holds, decide_eq_true_eq] at h
    subst h
    rfl
  | _ => cases h

/-- A slot is taken by a thread that held none. -/
theorem Account.take (h : Account config start slots rows threads) (ht : th ∈ threads)
    (hth : ∀ queue, th.holds queue = false) {new : Thread} (hnew : new.holds queue = true) {free occupied : ℕ}
    (hslot : slots queue = some ⟨free + 1, occupied⟩) :
    Account config start (Function.update slots queue (some ⟨free, occupied⟩)) rows (swap th [new] threads) := by
  intro q c hc
  have hold := h q c hc
  have hused := used_swap start rows ht [new] q
  rw [hth q, List.countP_singleton, holds_eq hnew] at hused
  by_cases hq : queue = q
  · subst hq
    rw [hslot] at hold
    simp only [decide_true, if_true, Bool.false_eq_true, if_false] at hused
    simp only [Function.update_self]
    dsimp only at hold
    omega
  · rw [Function.update_of_ne (Ne.symm hq)]
    simp only [hq, decide_false, Bool.false_eq_true, if_false, Nat.zero_add, Nat.add_zero] at hused
    rwa [hused]

/-- A slot is given back by the thread that held it. -/
theorem Account.give (h : Account config start s.slots s.rows s.threads) (ht : th ∈ s.threads)
    (hth : th.holds queue = true) {new : Thread} (hnew : ∀ queue, new.holds queue = false) :
    Account config start (releaseSlot queue s).slots s.rows (swap th [new] s.threads) := by
  intro q c hc
  have hold := h q c hc
  have hused := used_swap start s.rows ht [new] q
  have hcount : [new].countP (Thread.holds q) = 0 := List.countP_eq_zero.2 fun x hx => by
    rw [List.mem_singleton.1 hx, hnew q]
    simp
  rw [hcount, holds_eq hth] at hused
  by_cases hq : queue = q
  · subst hq
    simp only [decide_true, if_true] at hused
    simp only [releaseSlot, Function.update_self]
    cases hslot : s.slots queue with
    | none =>
      rw [hslot] at hold
      dsimp only at hold
      omega
    | some slot =>
      rw [hslot] at hold
      simp only [Option.map_some]
      dsimp only at hold
      omega
  · simp only [hq, decide_false, Bool.false_eq_true, if_false, Nat.zero_add, Nat.add_zero] at hused
    simp only [releaseSlot, Function.update_of_ne (Ne.symm hq)]
    rwa [hused]

/-! ## One operation -/

theorem Moved.of_pid {code : Option ℤ} {status : Status} (hp : status ≠ .pending) (hr : status ≠ .running) (r : Row) :
    Moved procs r (if r.status.live then { r with status := status, exit_code := code } else r) := by
  split
  · exact ⟨rfl, fun h => absurd h hp, fun h => absurd h hr, .inl rfl⟩
  · exact .refl procs r

/-- What `dispatch_finish` keeps, with a status that ends the row. -/
theorem Inv.finish (h : Inv config start s) (item : Text) {status : Status} (code : Option ℤ) (hstatus : status.live = false)
    (hdead : has item (· = .running) s.rows = true → ∀ p ∈ s.procs, p.item = item → p.code ≠ none) :
    Ledger start (dispatchFinish item status code s.rows) s.procs s.cancelled ∧
      Crew start (dispatchFinish item status code s.rows) s.procs s.threads := by
  have hp : status ≠ .pending := by
    rintro rfl
    cases hstatus
  have hr : status ≠ .running := by
    rintro rfl
    cases hstatus
  have hid : ∀ r : Row, (if r.status.live then { r with status := status, exit_code := code } else r).item_id =
      r.item_id := fun r => by split <;> rfl
  have hpid : ∀ r : Row, (if r.status.live then { r with status := status, exit_code := code } else r).pid =
      r.pid := fun r => by split <;> rfl
  have hrun : ∀ r : Row, (if r.status.live then { r with status := status, exit_code := code } else r).status ≠
      .running := by
    intro r
    split
    · exact hr
    · rename_i hlive
      intro hrun
      rw [hrun] at hlive
      exact hlive rfl
  constructor
  · refine h.ledger.update hid (fun r _ => .of_pid hp hr r) (fun r _ => hpid r) (fun r _ hr' => absurd hr' (hrun r)) ?_
    intro r _ hcancel
    rw [if_neg (by rw [hcancel]; decide)]
    exact hcancel
  · refine h.crew.update hid hpid (fun r _ => .of_pid hp hr r) ?_
    intro r hr₀ hrun₀ _
    exact hdead (has_iff.2 ⟨r, hr₀, by simpa using hrun₀⟩)

theorem find_finish (status : Status) (code : Option ℤ) (h : find item rows = some r) :
    ∃ r', find item (dispatchFinish item status code rows) = some r' ∧ r'.queue = r.queue ∧
      r'.status = (if r.status.live then status else r.status) := by
  have hid : ∀ r : Row, (if r.status.live then { r with status := status, exit_code := code } else r).item_id =
      r.item_id := fun r => by split <;> rfl
  refine ⟨_, by rw [dispatchFinish, find_update hid, if_pos rfl, h, Option.map_some], ?_⟩
  split <;> exact ⟨rfl, rfl⟩

/-- A row that ends stops running. -/
theorem running_finish (start : State) (hids : (rows.map Row.item_id).Nodup) {status : Status} (code : Option ℤ)
    (hstatus : status.live = false) (hr : find item rows = some r) (queue : Text) :
    running start queue (dispatchFinish item status code rows) +
        (if r.queue = queue ∧ r.status = .running ∧ leftover start item = false then 1 else 0) =
      running start queue rows := by
  have h := running_update (f := fun r => if r.status.live then { r with status := status, exit_code := code } else r)
    start hids (fun r => by split <;> rfl) (fun r => by split <;> rfl) hr queue
  have hnot : ¬ (r.queue = queue ∧ (if r.status.live then { r with status := status, exit_code := code } else r).status =
      .running ∧ leftover start item = false) := by
    rintro ⟨-, hrun, -⟩
    split at hrun
    · rw [show status = .running from hrun] at hstatus
      cases hstatus
    · rename_i hlive
      rw [hrun] at hlive
      exact hlive rfl
  rw [if_neg hnot, Nat.add_zero] at h
  exact h

/-- An update of a row that is not there changes nothing. -/
theorem update_of_none (h : find item rows = none) : update item f rows = rows := by
  refine update_of_not_mem fun hmem => ?_
  obtain ⟨r, hr, hid⟩ := List.mem_map.1 hmem
  have := List.find?_eq_none.1 h r hr
  simp [hid] at this

/-- If the row does not run, ending it leaves the slots in use as they are. -/
theorem running_finish_of_not (start : State) (hids : (rows.map Row.item_id).Nodup) {status : Status} (code : Option ℤ)
    (hstatus : status.live = false) (h : has item (· = .running) rows = false) (queue : Text) :
    running start queue (dispatchFinish item status code rows) = running start queue rows := by
  cases hf : find item rows with
  | none => rw [dispatchFinish, update_of_none hf]
  | some r =>
    have hnot : r.status ≠ .running := by
      intro hrun
      rw [has_iff.2 ⟨r, hf, by simpa using hrun⟩] at h
      cases h
    have := running_finish start hids code hstatus hf queue
    rwa [if_neg fun hr => hnot hr.2.1, Nat.add_zero] at this

theorem running_of_live (hr : find item rows = some r) (hst : r.status ≠ .pending)
    (h : has item Status.live rows = true) : r.status = .running := by
  obtain ⟨r', hr', hlive⟩ := has_iff.1 h
  rw [hr] at hr'
  cases hr'
  cases hs : r.status with
  | running => rfl
  | pending => exact absurd hs hst
  | _ => rw [hs] at hlive; cases hlive

theorem not_running_of_not_live (h : ¬ has item Status.live rows = true) :
    has item (· = .running) rows = false := by
  rw [Bool.eq_false_iff]
  intro hrun
  obtain ⟨r, hr, hrun⟩ := has_iff.1 hrun
  refine h (has_iff.2 ⟨r, hr, ?_⟩)
  rw [of_decide_eq_true hrun]
  rfl

/-- A row that does not run is ended: no slot changes hands. -/
theorem Inv.finish_idle (h : Inv config start s) (ht : th ∈ s.threads) (hth : ∀ queue, th.holds queue = false)
    (hstart : th.starts = none) (item : Text) {status : Status} (code : Option ℤ) (hstatus : status.live = false)
    (hnot : has item (· = .running) s.rows = false)
    (hok : Crew start (dispatchFinish item status code s.rows) s.procs s.threads →
      ∀ x ∈ ts, x.Ok start (dispatchFinish item status code s.rows) s.procs)
    (hts : ∀ x ∈ ts, ∀ queue, x.holds queue = false) (hstarts : ts.filterMap Thread.starts = []) :
    Inv config start (State.go { s with rows := dispatchFinish item status code s.rows } th ts) := by
  obtain ⟨hledger, hcrew⟩ := h.finish item code hstatus fun hrun => by
    rw [hnot] at hrun
    cases hrun
  refine ⟨hledger, hcrew.go ht hstart (hok hcrew) hstarts, ?_⟩
  refine Account.go (h.account.of_used fun q => ?_) ht hth hts
  exact congrArg (s.threads.countP (Thread.holds q) + ·)
    (running_finish_of_not start h.ledger.ids code hstatus hnot q)

/-- **The slot of a row that ends goes to the thread that ended it.** -/
theorem Account.pass (h : Account config start slots rows threads) (hids : (rows.map Row.item_id).Nodup)
    (ht : th ∈ threads) (hth : ∀ queue, th.holds queue = false) {new : Thread} (hnew : new.holds queue = true)
    {status : Status} {code : Option ℤ} (hstatus : status.live = false) (hr : find item rows = some r)
    (hq : r.queue = queue) (hrun : r.status = .running) (hleft : leftover start item = false) :
    Account config start slots (dispatchFinish item status code rows) (swap th [new] threads) := by
  refine h.of_used fun q => ?_
  have hrunning := running_finish start hids code hstatus hr q
  have hused := used_swap start rows ht [new] q
  rw [hth q, List.countP_singleton, holds_eq hnew] at hused
  simp only [used] at hused ⊢
  by_cases hqq : queue = q
  · rw [if_pos ⟨hq.trans hqq, hrun, hleft⟩] at hrunning
    simp only [hqq, decide_true, if_true, Bool.false_eq_true, if_false] at hused
    omega
  · rw [if_neg fun h' => hqq (hq.symm.trans h'.1)] at hrunning
    simp only [hqq, decide_false, Bool.false_eq_true, if_false] at hused
    omega

/-- A row that runs is ended: its slot goes to the new thread. -/
theorem Inv.finish_running (h : Inv config start s) (ht : th ∈ s.threads) (hth : ∀ queue, th.holds queue = false)
    (hstart : th.starts = none) {status : Status} (code : Option ℤ) (hstatus : status.live = false)
    (hr : find item s.rows = some r) (hq : r.queue = queue) (hrun : r.status = .running)
    (hleft : leftover start item = false) (hdead : ∀ p ∈ s.procs, p.item = item → p.code ≠ none)
    {new : Thread} (hnew : new.holds queue = true) (hnewstart : new.starts = none)
    (hok : new.Ok start (dispatchFinish item status code s.rows) s.procs) :
    Inv config start (State.go { s with rows := dispatchFinish item status code s.rows } th [new]) := by
  obtain ⟨hledger, hcrew⟩ := h.finish item code hstatus fun _ => hdead
  refine ⟨hledger, hcrew.go ht hstart ?_ (by rw [List.filterMap_cons_none hnewstart]; rfl), ?_⟩
  · intro x hx
    obtain rfl := List.mem_singleton.1 hx
    exact hok
  · exact h.account.pass h.ledger.ids ht hth hnew hstatus hr hq hrun hleft

theorem inv_fail {items : List Text} (h : Inv config start s) (ht : .fail queue item items ∈ s.threads)
    (hnot : has item (· = .running) s.rows = false) :
    Inv config start (State.go { s with rows := dispatchFinish item .failed none s.rows } (.fail queue item items)
      [.acquire queue items]) := by
  refine h.finish_idle ht (fun _ => rfl) rfl item none rfl hnot ?_ ?_ rfl
  · intro hcrew x hx
    obtain rfl := List.mem_singleton.1 hx
    exact fun i hi => hcrew.ok _ ht i (List.mem_cons_of_mem _ hi)
  · intro x hx q
    obtain rfl := List.mem_singleton.1 hx
    rfl

theorem inv_own {proc : ℕ} {p : Proc} {code : ℤ} (h : Inv config start s) (ht : .own queue item proc ∈ s.threads)
    (hp : s.procs[proc]? = some p) (hcode : p.code = some code) {status : Status} (hstatus : status.live = false) :
    Inv config start (State.go { s with rows := dispatchFinish item status (some code) s.rows } (.own queue item proc)
      (if has item Status.live s.rows then [.release queue] else [])) := by
  obtain ⟨p', r, hp', hitem, -, hr, hq, hst, -⟩ := h.crew.ok _ ht
  rw [hp] at hp'
  cases hp'
  have hmem : p ∈ s.procs := List.mem_of_getElem? hp
  have hleft : leftover start item = false := hitem ▸ (h.ledger.procs p hmem).1
  split
  · rename_i hlive
    refine h.finish_running ht (fun _ => rfl) rfl (some code) hstatus hr hq (running_of_live hr hst hlive) hleft ?_
      (show Thread.holds queue (.release queue) = true from decide_eq_true rfl) rfl trivial
    -- the item has only this process, and it has ended
    intro q hq' hqi
    have heq : q = p := List.inj_on_of_nodup_map h.ledger.once hq' hmem (hqi.trans hitem.symm)
    rw [heq, hcode]
    simp
  · rename_i hlive
    exact h.finish_idle ht (fun _ => rfl) rfl item (some code) hstatus (not_running_of_not_live hlive)
      (fun _ => by simp) (by simp) rfl

theorem inv_cancel (h : Inv config start s) (ht : .cancel queue item ∈ s.threads)
    (hleft : leftover start item = false) (hs : operate config s (.cancel queue item) = some t) :
    Inv config start t := by
  obtain ⟨r, hr, hq, hst, hnew⟩ := h.crew.ok _ ht
  have hended : Status.cancelled.live = false := rfl
  dsimp only [operate] at hs
  by_cases hlive : has item Status.live s.rows = true
  · rw [if_pos hlive] at hs
    cases hs
    have hrun := running_of_live hr hst hlive
    have hinv := h.finish_running ht (fun _ => rfl) rfl none hended hr hq hrun hleft ((hnew hleft).2 hrun)
      (show Thread.holds queue (.slot queue) = true from decide_eq_true rfl) rfl trivial
    refine ⟨{ hinv.ledger with cancelled := fun x hx => ?_ }, hinv.crew, hinv.account⟩
    rcases List.mem_cons.1 hx with rfl | hx
    · obtain ⟨r', hr', -, hst'⟩ := find_finish .cancelled none hr
      refine has_iff.2 ⟨r', hr', ?_⟩
      rw [hst', hrun]
      rfl
    · exact hinv.ledger.cancelled x hx
  · rw [if_neg hlive] at hs
    cases hs
    exact h.finish_idle ht (fun _ => rfl) rfl item none hended (not_running_of_not_live hlive)
      (fun _ => by simp) (by simp) rfl

/-- With distinct items, a process is known by its item. -/
theorem place_unique {i j : ℕ} {p q : Proc} (h : (procs.map Proc.item).Nodup) (hp : procs[i]? = some p)
    (hq : procs[j]? = some q) (hitem : p.item = q.item) : i = j := by
  have hi : i < (procs.map Proc.item).length := by
    simpa using (List.getElem?_eq_some_iff.1 hp).1
  refine (List.getElem?_inj hi h).1 ?_
  rw [List.getElem?_map, List.getElem?_map, hp, hq, Option.map_some, Option.map_some, hitem]

/-- A launched process is recorded, and its slot goes from the thread to the row. -/
theorem inv_started {proc : ℕ} {p : Proc} {items : List Text} (h : Inv config start s)
    (ht : .start queue item proc items ∈ s.threads) (hp : s.procs[proc]? = some p)
    (hcancel : has item (· = .cancelled) s.rows = false) :
    Inv config start (State.go { s with rows := dispatchStart item p.pid s.rows } (.start queue item proc items)
      [.own queue item proc, .acquire queue items]) := by
  obtain ⟨hitems, ⟨p', hp', hitem, hpq⟩, r, hr, hnone⟩ := h.crew.ok _ ht
  rw [hp] at hp'
  cases hp'
  have hmem : p ∈ s.procs := List.mem_of_getElem? hp
  obtain ⟨hleft, r', hr', hq⟩ := h.ledger.procs p hmem
  rw [hitem] at hleft hr'
  rw [hr] at hr'
  cases hr'
  have hid : ∀ r : Row, ({ r with status := .running, pid := some p.pid } : Row).item_id = r.item_id := fun _ => rfl
  have hm : ∀ r', find item s.rows = some r' →
      Moved s.procs r' { r' with status := .running, pid := some p.pid } := by
    intro r' hr'
    rw [hr] at hr'
    cases hr'
    refine ⟨rfl, (by rintro ⟨⟩), fun _ => .inr hnone, .inr ⟨hnone, ?_⟩⟩
    rw [(find_some hr).2, ← hitem]
    exact List.mem_map_of_mem hmem
  have hfound : find item (dispatchStart item p.pid s.rows) =
      some { r with status := .running, pid := some p.pid } := by
    rw [dispatchStart, find_update hid, if_pos rfl, hr, Option.map_some]
  -- the row had no pid, so it did not run
  have hnot : r.status ≠ .running := by
    intro hrun
    obtain ⟨q, -, -, hpid⟩ := h.ledger.running item r hr hrun hleft
    rw [hnone] at hpid
    cases hpid
  have hother : ∀ x, x ≠ item → find x (dispatchStart item p.pid s.rows) = find x s.rows := fun x hx => by
    rw [dispatchStart, find_update hid, if_neg hx]
  have hledger : Ledger start (dispatchStart item p.pid s.rows) s.procs s.cancelled := by
    refine h.ledger.update hid hm (by rintro r ⟨⟩) (fun _ _ _ _ => ⟨p, hmem, hitem, rfl⟩) ?_
    intro r' hr' hst
    rw [has_iff.2 ⟨r', hr', by simpa using hst⟩] at hcancel
    cases hcancel
  -- no other thread is to set this row running
  have hpid : ∀ queue' x proc' items',
      Thread.start queue' x proc' items' ∈ s.threads.erase (.start queue item proc items) →
        ∀ r, find x s.rows = some r → r.pid = none →
          ∀ r', find x (dispatchStart item p.pid s.rows) = some r' → r'.pid = none := by
    intro queue' x proc' items' hx r₁ hr₁ hpid₁ r₂ hr₂
    have hne : x ≠ item := by
      rintro rfl
      obtain ⟨-, ⟨p₁, hp₁, hitem₁, -⟩, -⟩ := h.crew.ok _ (List.mem_of_mem_erase hx)
      obtain rfl := place_unique h.ledger.once hp hp₁ (hitem.trans hitem₁.symm)
      exact ne_of_mem_erase ht h.crew.starts rfl hx rfl
    rw [hother x hne, hr₁] at hr₂
    cases hr₂
    exact hpid₁
  have hcrew : Crew start (dispatchStart item p.pid s.rows) s.procs
      (swap (.start queue item proc items) [.own queue item proc, .acquire queue items] s.threads) := by
    refine h.crew.advance ht (moves_update hid hm) hpid ?_ (by simp [Thread.starts]) ?_
    · intro x hx
      rcases List.mem_cons.1 hx with rfl | hx
      · exact ⟨p, _, hp, hitem, hpq, hfound, hq.trans hpq, by simp, rfl⟩
      · obtain rfl := List.mem_singleton.1 hx
        exact fun i hi => (hitems i hi).move (moves_update hid hm)
    · rintro i p₁ hp₁ - hcase
      refine .inl ?_
      by_cases hx : p₁.item = item
      · rw [hx]
        exact has_iff.2 ⟨_, hfound, rfl⟩
      · rcases hcase with heq | hrun
        · cases heq
          rw [hp] at hp₁
          cases hp₁
          exact absurd hitem hx
        · obtain ⟨r₁, hr₁, hrun₁⟩ := has_iff.1 hrun
          exact has_iff.2 ⟨r₁, (hother _ hx).trans hr₁, hrun₁⟩
  refine ⟨hledger, hcrew, h.account.of_used fun q => ?_⟩
  have hrunning := running_update (f := fun r => { r with status := .running, pid := some p.pid }) start h.ledger.ids
    hid (fun _ => rfl) hr q
  have hused := used_swap start s.rows ht [.own queue item proc, .acquire queue items] q
  rw [if_neg fun h' => hnot h'.2.1, ← dispatchStart] at hrunning
  have hcount : [Thread.own queue item proc, .acquire queue items].countP (Thread.holds q) = 0 := by
    simp [Thread.holds]
  have hholds : (Thread.start queue item proc items).holds q = decide (queue = q) := rfl
  rw [hcount, hholds] at hused
  simp only [used] at hused
  have hgoal : (swap (.start queue item proc items) [.own queue item proc, .acquire queue items] s.threads).countP
      (Thread.holds q) + running start q (dispatchStart item p.pid s.rows) =
        s.threads.countP (Thread.holds q) + running start q s.rows := by
    by_cases hqq : queue = q
    · rw [if_pos ⟨(hq.trans hpq).trans hqq, rfl, hleft⟩] at hrunning
      rw [if_pos (decide_eq_true hqq)] at hused
      omega
    · rw [if_neg fun h' => hqq ((hq.trans hpq).symm.trans h'.1)] at hrunning
      rw [if_neg (by simpa using hqq)] at hused
      omega
  exact hgoal

theorem listed_pendingFor (h : Ledger start rows procs cancelled) (hi : item ∈ pendingFor queue rows) :
    Listed start rows procs queue item := by
  obtain ⟨r, hr, rfl⟩ := List.mem_map.1 hi
  rw [List.mem_insertionSort, List.mem_filter, Bool.and_eq_true] at hr
  have hfind := find_of_mem h.ids hr.1
  obtain ⟨hleft, hpid⟩ := h.pending r.item_id r hfind (of_decide_eq_true hr.2.2)
  exact ⟨hleft, r, hfind, of_decide_eq_true hr.2.1, .inl hpid⟩

/-- A thread that goes on and holds what it held, while nothing else changes. -/
theorem Inv.go (h : Inv config start s) (ht : th ∈ s.threads) (hstart : th.starts = none)
    (hth : ∀ queue, th.holds queue = false) (hok : ∀ x ∈ ts, x.Ok start s.rows s.procs)
    (hts : ∀ x ∈ ts, ∀ queue, x.holds queue = false) (hstarts : ts.filterMap Thread.starts = []) :
    Inv config start (s.go th ts) :=
  ⟨h.ledger, h.crew.go ht hstart hok hstarts, h.account.go ht hth hts⟩

theorem inv_slotOf (h : Inv config start s) (hc : config queue = some concurrency) :
    Inv config start (slotOf queue concurrency s) := by
  obtain ⟨hrows, hthreads, hprocs, hcancelled⟩ := slotOf_rows queue concurrency s
  have haccount := h.account.slotOf hc
  constructor
  · rw [hrows, hprocs, hcancelled]
    exact h.ledger
  · rw [hrows, hprocs, hthreads]
    exact h.crew
  · rw [hrows, hthreads]
    exact haccount

/-- **An operation that meets the condition keeps the invariant.** -/
theorem inv_operate (h : Inv config start s) (ht : th ∈ s.threads) (hmeets : Meets start s (.run th))
    (hs : operate config s th = some t) : Inv config start t := by
  have hone : ∀ {x : Thread} {P : Thread → Prop}, P x → ∀ y ∈ [x], P y := fun hx y hy => List.mem_singleton.1 hy ▸ hx
  cases th with
  | drain queue =>
    dsimp only [operate] at hs
    cases hc : config queue with
    | none =>
      rw [hc] at hs
      cases hs
      exact h.go ht rfl (fun _ => rfl) (by simp) (by simp) rfl
    | some concurrency =>
      rw [hc] at hs
      cases hs
      have ht' : .drain queue ∈ (slotOf queue concurrency s).threads := (slotOf_rows queue concurrency s).2.1 ▸ ht
      exact (inv_slotOf h hc).go ht' rfl (fun _ => rfl) (hone trivial) (hone fun _ => rfl) rfl
  | listPending queue =>
    cases hs
    exact h.go ht rfl (fun _ => rfl) (hone fun _ hi => listed_pendingFor h.ledger hi) (hone fun _ => rfl) rfl
  | acquire queue items =>
    cases items with
    | nil =>
      cases hs
      exact h.go ht rfl (fun _ => rfl) (by simp) (by simp) rfl
    | cons item items =>
      dsimp only [operate] at hs
      split at hs
      · rename_i free occupied hslot
        cases hs
        have hlisted := h.crew.ok _ ht
        have hok : (Thread.launch queue item items).Ok start s.rows s.procs := hlisted
        have hholds : (Thread.launch queue item items).holds queue = true := decide_eq_true rfl
        exact ⟨h.ledger, h.crew.go ht rfl (hone hok) rfl, h.account.take ht (fun _ => rfl) hholds hslot⟩
      · cases hs
        exact h.go ht rfl (fun _ => rfl) (by simp) (by simp) rfl
  | giveBack queue item items =>
    cases hs
    have hlisted := h.crew.ok _ ht
    have hok : (Thread.fail queue item items).Ok start s.rows s.procs := hlisted
    exact ⟨h.ledger, h.crew.go ht rfl (hone hok) rfl, h.account.give ht (decide_eq_true rfl) fun _ => rfl⟩
  | fail queue item items =>
    cases hs
    exact inv_fail h ht (by simpa [Meets, meets] using hmeets)
  | start queue item proc items =>
    obtain ⟨p, hp, rfl⟩ := Option.map_eq_some_iff.1 hs
    exact inv_started h ht hp (by simpa [Meets, meets] using hmeets)
  | own queue item proc =>
    dsimp only [operate] at hs
    split at hs
    · rename_i item' queue' pid code hp
      cases hs
      exact inv_own h ht hp rfl (by split <;> rfl)
    · cases hs
  | get item =>
    dsimp only [operate] at hs
    cases hr : find item s.rows with
    | none =>
      rw [hr] at hs
      cases hs
      exact h.go ht rfl (fun _ => rfl) (by simp) (by simp) rfl
    | some r =>
      rw [hr] at hs
      cases hs
      split
      · rename_i hrun
        refine h.go ht rfl (fun _ => rfl) (hone ?_) (hone fun _ => rfl) rfl
        refine ⟨r, hr, rfl, by simp [hrun], fun hleft => ⟨?_, fun _ => rfl⟩⟩
        obtain ⟨p, -, -, hpid⟩ := h.ledger.running item r hr hrun hleft
        simp [hpid]
      · exact h.go ht rfl (fun _ => rfl) (by simp) (by simp) rfl
  | cancel queue item => exact inv_cancel h ht (by simpa [Meets, meets] using hmeets) hs
  | slot queue =>
    dsimp only [operate] at hs
    cases hc : config queue with
    | none =>
      rw [hc] at hs
      cases hs
      refine ⟨h.ledger, h.crew.go ht rfl (by simp) rfl, fun q c hq => ?_⟩
      have hne : queue ≠ q := by
        rintro rfl
        rw [hc] at hq
        cases hq
      have hused := used_swap start s.rows ht [] q
      have hth : (Thread.slot queue).holds q = false := decide_eq_false hne
      rw [hth] at hused
      simp only [Bool.false_eq_true, if_false, Nat.add_zero, List.countP_nil, Nat.zero_add] at hused
      have := h.account q c hq
      rw [← hused] at this
      exact this
    | some concurrency =>
      rw [hc] at hs
      cases hs
      have hinv := inv_slotOf h hc
      have ht' : .slot queue ∈ (slotOf queue concurrency s).threads := (slotOf_rows queue concurrency s).2.1 ▸ ht
      refine ⟨hinv.ledger, hinv.crew.go ht' rfl (hone trivial) rfl, hinv.account.of_used fun q => ?_⟩
      have hused := used_swap start (slotOf queue concurrency s).rows ht' [.release queue] q
      have hsame : [Thread.release queue].countP (Thread.holds q) = if (Thread.slot queue).holds q then 1 else 0 :=
        List.countP_singleton
      rw [hsame, Nat.add_comm] at hused
      exact Nat.add_left_cancel hused
  | release queue =>
    cases hs
    exact ⟨h.ledger, h.crew.go ht rfl (hone trivial) rfl, h.account.give ht (decide_eq_true rfl) fun _ => rfl⟩
  | launch => cases hs
  | kill => cases hs

/-! ## One step -/

theorem inv_launch {pid : ℕ} {items : List Text} (h : Inv config start s)
    (ht : .launch queue item items ∈ s.threads) (hnew : item ∉ s.launched) :
    Inv config start (State.go { s with procs := s.procs ++ [{ item, queue, pid, code := none }] }
      (.launch queue item items) [.start queue item s.procs.length items]) := by
  have hlisted := h.crew.ok _ ht
  obtain ⟨hleft, r, hr, hq, hpid⟩ := hlisted item List.mem_cons_self
  have hnone : r.pid = none := hpid.resolve_right hnew
  have hgrows : Grows s.procs (s.procs ++ [{ item, queue, pid, code := none }]) := by
    constructor
    · intro i p hp
      refine ⟨p, ?_, rfl, rfl, rfl⟩
      rw [List.getElem?_append_left (List.getElem?_eq_some_iff.1 hp).1]
      exact hp
    · intro p' hp' hmem
      rcases List.mem_append.1 hp' with hp' | hp'
      · exact ⟨p', hp', rfl, id⟩
      · obtain rfl := List.mem_singleton.1 hp'
        exact absurd hmem hnew
  have hledger : Ledger start s.rows (s.procs ++ [{ item, queue, pid, code := none }]) s.cancelled := by
    refine { h.ledger with once := ?_, running := ?_, procs := ?_ }
    · rw [List.map_append]
      refine List.nodup_append.2 ⟨h.ledger.once, List.nodup_singleton _, ?_⟩
      intro a ha b hb hab
      rw [hab, List.mem_singleton.1 hb] at ha
      exact hnew ha
    · intro x r hr hrun hx
      obtain ⟨p, hp, h'⟩ := h.ledger.running x r hr hrun hx
      exact ⟨p, List.mem_append_left _ hp, h'⟩
    · intro p hp
      rcases List.mem_append.1 hp with hp | hp
      · exact h.ledger.procs p hp
      · obtain rfl := List.mem_singleton.1 hp
        exact ⟨hleft, r, hr, hq⟩
  have hplace : (s.procs ++ [{ item, queue, pid, code := none }])[s.procs.length]? =
      some { item, queue, pid, code := none } := by simp
  have hcrew : Crew start s.rows (s.procs ++ [{ item, queue, pid, code := none }])
      (swap (.launch queue item items) [.start queue item s.procs.length items] s.threads) := by
    refine ⟨?_, ?_, ?_⟩
    · intro x hx
      rcases mem_swap.1 hx with hx | hx
      · obtain rfl := List.mem_singleton.1 hx
        exact ⟨fun i hi => (hlisted i (List.mem_cons_of_mem _ hi)).grow hgrows, ⟨_, hplace, rfl, rfl⟩, r, hr, hnone⟩
      · exact (h.crew.ok x (List.mem_of_mem_erase hx)).grow h.ledger hgrows
    · -- the place of the new process is after those of the others
      have hsub : ((s.threads.erase (.launch queue item items)).filterMap Thread.starts).Sublist
          (s.threads.filterMap Thread.starts) := List.erase_sublist.filterMap _
      rw [swap, List.filterMap_append]
      refine List.nodup_append.2 ⟨List.nodup_singleton _, h.crew.starts.sublist hsub, ?_⟩
      rintro a ha b hb rfl
      have ha' : a = s.procs.length := List.mem_singleton.1 ha
      obtain ⟨x, hx, hstarts⟩ := List.mem_filterMap.1 (hsub.subset hb)
      cases x with
      | start q i proc its =>
        obtain ⟨-, ⟨p, hp, -⟩, -⟩ := h.crew.ok _ hx
        cases hstarts
        have := (List.getElem?_eq_some_iff.1 hp).1
        omega
      | _ => cases hstarts
    · intro i p hp hcode
      by_cases hi : i < s.procs.length
      · rw [List.getElem?_append_left hi] at hp
        refine (h.crew.alive i p hp hcode).imp_left ?_
        rintro ⟨its, hmem⟩
        exact ⟨its, mem_swap_of_ne hmem (by simp)⟩
      · have hlen := (List.getElem?_eq_some_iff.1 hp).1
        rw [List.length_append, List.length_singleton] at hlen
        obtain rfl : i = s.procs.length := by omega
        rw [hplace] at hp
        cases hp
        exact .inl ⟨items, mem_swap.2 (.inl (List.mem_singleton_self _))⟩
  refine ⟨hledger, hcrew, h.account.of_used fun q => ?_⟩
  have hused := used_swap start s.rows ht [.start queue item s.procs.length items] q
  have hsame : [Thread.start queue item s.procs.length items].countP (Thread.holds q) =
      if (Thread.launch queue item items).holds q then 1 else 0 := List.countP_singleton
  rw [hsame, Nat.add_comm] at hused
  exact Nat.add_left_cancel hused

theorem inv_kill {pid : Option ℕ} {code : ℤ} (h : Inv config start s) (ht : .kill queue item pid ∈ s.threads) :
    Inv config start (State.go { s with procs := killGroup pid code s.procs } (.kill queue item pid)
      [.cancel queue item]) := by
  obtain ⟨r, hr, hq, hst, hnew⟩ := h.crew.ok _ ht
  have hended := ended_killGroup pid code s.procs
  have hledger := h.ledger.ended hended
  refine ⟨hledger, (h.crew.ended h.ledger hended).go ht rfl ?_ rfl,
    h.account.go ht (fun _ => rfl) fun x hx _ => by rw [List.mem_singleton.1 hx]; rfl⟩
  intro x hx
  obtain rfl := List.mem_singleton.1 hx
  refine ⟨r, hr, hq, hst, fun hleft => ⟨(hnew hleft).1, fun hrun p hp hitem => ?_⟩⟩
  -- the row's process is the one with its pid
  obtain ⟨p', hp', hitem', hpid⟩ := hledger.running item r hr hrun hleft
  have heq : p = p' := List.inj_on_of_nodup_map hledger.once hp hp' (hitem.trans hitem'.symm)
  exact killGroup_dead hp (by rw [heq, ← hpid, (hnew hleft).2 hrun])

/-- A thread is started. -/
theorem Inv.cons (h : Inv config start s) (hok : th.Ok start s.rows s.procs) (hstart : th.starts = none)
    (hth : ∀ queue, th.holds queue = false) : Inv config start { s with threads := th :: s.threads } := by
  refine ⟨h.ledger, h.crew.cons hok hstart, h.account.of_used fun q => ?_⟩
  rw [used, List.countP_cons_of_neg (by simp [hth q])]
  rfl

theorem inv_cancelPending (h : Inv config start s) (item : Text) :
    Inv config start { s with rows := dispatchCancelPending item s.rows } := by
  have hid : ∀ r : Row, (if r.status = .pending then { r with status := .cancelled } else r).item_id = r.item_id :=
    fun r => by split <;> rfl
  have hpid : ∀ r : Row, (if r.status = .pending then { r with status := .cancelled } else r).pid = r.pid :=
    fun r => by split <;> rfl
  have hqueue : ∀ r : Row, (if r.status = .pending then { r with status := .cancelled } else r).queue = r.queue :=
    fun r => by split <;> rfl
  have hrun : ∀ r : Row, (if r.status = .pending then { r with status := .cancelled } else r).status = .running ↔
      r.status = .running := by
    intro r
    split
    · rename_i hp
      simp [hp]
    · rfl
  have hm : ∀ r, find item s.rows = some r →
      Moved s.procs r (if r.status = .pending then { r with status := .cancelled } else r) := by
    intro r _
    refine ⟨hqueue r, ?_, fun hr => .inl ((hrun r).1 hr), .inl (hpid r)⟩
    split
    · rintro ⟨⟩
    · exact id
  refine ⟨h.ledger.update hid hm (fun r _ => hpid r) ?_ ?_, h.crew.update hid hpid hm ?_, h.account.of_used fun q => ?_⟩
  · intro r hr hr' hleft
    obtain ⟨p, hp, hitem, heq⟩ := h.ledger.running item r hr ((hrun r).1 hr') hleft
    exact ⟨p, hp, hitem, (hpid r).trans heq⟩
  · intro r _ hcancel
    rw [if_neg (by rw [hcancel]; decide)]
    exact hcancel
  · intro r _ hr hnot
    exact absurd ((hrun r).2 hr) hnot
  · refine congrArg (s.threads.countP (Thread.holds q) + ·) ?_
    cases hf : find item s.rows with
    | none => rw [dispatchCancelPending, update_of_none hf]
    | some r =>
      have := running_update (f := fun r => if r.status = .pending then { r with status := .cancelled } else r)
        start h.ledger.ids hid hqueue hf q
      simp only [hrun] at this
      exact Nat.add_right_cancel this

theorem cancelled_cancelPending (h : has item (· = .pending) s.rows = true) :
    has item (· = .cancelled) (dispatchCancelPending item s.rows) = true := by
  obtain ⟨r, hr, hp⟩ := has_iff.1 h
  have hid : ∀ r : Row, (if r.status = .pending then { r with status := .cancelled } else r).item_id = r.item_id :=
    fun r => by split <;> rfl
  refine has_iff.2 ⟨_, by rw [dispatchCancelPending, find_update hid, if_pos rfl, hr, Option.map_some], ?_⟩
  rw [if_pos (of_decide_eq_true hp)]
  rfl

/-- A fresh row is appended. -/
theorem dispatchEnqueue_eq {now : ℕ} (h : find item rows = none) : dispatchEnqueue item queue now rows =
    rows ++ [⟨item, queue, .pending, none, none, now⟩] := by
  rw [dispatchEnqueue, List.filter_eq_self.2]
  intro r hr
  have := List.find?_eq_none.1 h r hr
  simpa using this

theorem find_append (h : find item rows = none) (hnew : r.item_id = item) (x : Text) :
    find x (rows ++ [r]) = if x = item then some r else find x rows := by
  rw [find, List.find?_append, ← find]
  split
  · rename_i hx
    subst hx
    rw [h]
    simp [hnew]
  · rename_i hx
    have hne : ¬ r.item_id = x := fun h' => hx (h'.symm.trans hnew)
    simp [hne]

theorem inv_enqueue {now : ℕ} (h : Inv config start s) (hfresh : find item s.rows = none) :
    Inv config start { s with rows := dispatchEnqueue item queue now s.rows, threads := .drain queue :: s.threads } := by
  refine Inv.cons (s := { s with rows := dispatchEnqueue item queue now s.rows }) ?_ trivial rfl fun _ => rfl
  rw [dispatchEnqueue_eq hfresh]
  generalize hnew : (⟨item, queue, .pending, none, none, now⟩ : Row) = new
  have hitem : new.item_id = item := by rw [← hnew]
  have hpend : new.status = .pending := by rw [← hnew]
  have hnone : new.pid = none := by rw [← hnew]
  have hfind := fun x => find_append hfresh hitem x
  have hleft : leftover start item = false := by
    rw [Bool.eq_false_iff]
    intro hl
    have := h.ledger.known item hl
    rw [hfresh] at this
    cases this
  have hold : ∀ x r, find x s.rows = some r → find x (s.rows ++ [new]) = some r := by
    intro x r hr
    rw [hfind, if_neg, hr]
    rintro rfl
    rw [hfresh] at hr
    cases hr
  have hback : ∀ x r, find x (s.rows ++ [new]) = some r → find x s.rows = some r ∨ x = item ∧ r = new := by
    intro x r hr
    rw [hfind] at hr
    split at hr
    · rename_i hx
      exact .inr ⟨hx, (Option.some.inj hr).symm⟩
    · exact .inl hr
  refine ⟨⟨?_, h.ledger.once, ?_, ?_, ?_, ?_, ?_⟩, ?_, h.account.of_used fun q => ?_⟩
  · rw [List.map_append]
    refine List.nodup_append.2 ⟨h.ledger.ids, List.nodup_singleton _, ?_⟩
    intro a ha b hb hab
    rw [hab, List.mem_singleton.1 hb, hitem] at ha
    obtain ⟨r, hr, hri⟩ := List.mem_map.1 ha
    have := find_of_mem h.ledger.ids hr
    rw [hri, hfresh] at this
    cases this
  · intro x r hr hp
    rcases hback x r hr with hr | ⟨rfl, rfl⟩
    · exact h.ledger.pending x r hr hp
    · exact ⟨hleft, hnone⟩
  · intro x hx
    obtain ⟨r, hr⟩ := Option.isSome_iff_exists.1 (h.ledger.known x hx)
    rw [hold x r hr]
    rfl
  · intro x r hr hrun hx
    rcases hback x r hr with hr | ⟨rfl, rfl⟩
    · exact h.ledger.running x r hr hrun hx
    · rw [hpend] at hrun
      cases hrun
  · intro p hp
    obtain ⟨hl, r, hr, hq⟩ := h.ledger.procs p hp
    exact ⟨hl, r, hold p.item r hr, hq⟩
  · intro x hx
    obtain ⟨r, hr, hst⟩ := has_iff.1 (h.ledger.cancelled x hx)
    exact has_iff.2 ⟨r, hold x r hr, hst⟩
  · refine h.crew.move (fun x r hr => ⟨r, hold x r hr, .refl _ r⟩) ?_ ?_
    · intro x r hr hn r' hr'
      rw [hold x r hr] at hr'
      cases hr'
      exact hn
    · intro p _ _ hrun
      obtain ⟨r, hr, hst⟩ := has_iff.1 hrun
      exact has_iff.2 ⟨r, hold _ r hr, hst⟩
  · refine congrArg (s.threads.countP (Thread.holds q) + ·) ?_
    rw [running, List.countP_append, List.countP_singleton, running]
    simp [hpend]

/-- **A step that meets the condition keeps the invariant.** -/
theorem inv_step (s : State) (e : Event) (t : State) (h : Inv config start s) (hmeets : Meets start s e)
    (hs : step config s e = some t) : Inv config start t := by
  cases e with
  | enqueue item queue now =>
    dsimp only [step] at hs
    split at hs
    · rename_i hfresh
      cases hs
      exact inv_enqueue h hfresh.2
    · cases hs
  | drain queue =>
    cases hs
    exact h.cons trivial rfl fun _ => rfl
  | cancelPending item =>
    have hinv := inv_cancelPending h item
    dsimp only [step] at hs
    split at hs
    · rename_i hpend
      cases hs
      refine ⟨{ hinv.ledger with cancelled := fun x hx => ?_ }, hinv.crew, hinv.account⟩
      rcases List.mem_cons.1 hx with rfl | hx
      · exact cancelled_cancelPending hpend
      · exact hinv.ledger.cancelled x hx
    · cases hs
      exact hinv
  | stop item =>
    cases hs
    exact h.cons trivial rfl fun _ => rfl
  | exit proc code =>
    dsimp only [step] at hs
    split at hs
    · rename_i p hp
      split at hs
      · cases hs
        exact ⟨h.ledger.ended (ended_set hp code), h.crew.ended h.ledger (ended_set hp code), h.account⟩
      · cases hs
    · cases hs
  | run th =>
    dsimp only [step] at hs
    split at hs
    · rename_i ht
      exact inv_operate h ht hmeets hs
    · cases hs
  | launch th pid =>
    cases th with
    | launch queue item items =>
      dsimp only [step] at hs
      split at hs
      · rename_i ht
        cases pid with
        | none =>
          cases hs
          have hlisted := h.crew.ok _ ht
          refine ⟨h.ledger, h.crew.go ht rfl (fun x hx => ?_) rfl, h.account.of_used fun q => ?_⟩
          · obtain rfl := List.mem_singleton.1 hx
            exact hlisted
          · have hused := used_swap start s.rows ht [.giveBack queue item items] q
            have hsame : [Thread.giveBack queue item items].countP (Thread.holds q) =
                if (Thread.launch queue item items).holds q then 1 else 0 := List.countP_singleton
            rw [hsame, Nat.add_comm] at hused
            exact Nat.add_left_cancel hused
        | some pid =>
          dsimp only at hs
          split at hs
          · cases hs
            simp only [Meets, meets, Bool.and_eq_true, decide_eq_true_eq] at hmeets
            exact inv_launch h ht hmeets.1
          · cases hs
      · cases hs
    | _ => cases hs
  | kill th code =>
    cases th with
    | kill queue item pid =>
      dsimp only [step] at hs
      split at hs
      · rename_i ht
        cases hs
        exact inv_kill h ht
      · cases hs
    | _ => cases hs

/-! ## Runs -/

theorem inv_start (h : Start s) : Inv config s s := by
  have hrunning : ∀ item r, find item s.rows = some r → r.status = .running → leftover s item = true :=
    fun item r hr hrun => has_iff.2 ⟨r, hr, decide_eq_true hrun⟩
  refine ⟨⟨h.rows, ?_, ?_, ?_, ?_, ?_, ?_⟩, ⟨?_, ?_, ?_⟩, ?_⟩
  · rw [h.procs]
    exact List.nodup_nil
  · intro item r hr hpend
    refine ⟨?_, h.pending r (find_some hr).1 hpend⟩
    rw [Bool.eq_false_iff]
    intro hleft
    obtain ⟨r', hr', hrun⟩ := has_iff.1 hleft
    rw [hr] at hr'
    cases hr'
    rw [hpend] at hrun
    cases hrun
  · intro item hleft
    obtain ⟨r, hr, -⟩ := has_iff.1 hleft
    rw [hr]
    rfl
  · intro item r hr hrun hleft
    rw [hrunning item r hr hrun] at hleft
    cases hleft
  · rw [h.procs]
    simp
  · rw [h.cancelled]
    simp
  · rw [h.threads]
    simp
  · rw [h.threads]
    exact List.nodup_nil
  · rw [h.procs]
    simp
  · intro queue concurrency _
    rw [h.slots]
    have hcount : running s queue s.rows = 0 := by
      refine List.countP_eq_zero.2 fun r hr => ?_
      by_cases hrun : r.status = .running
      · simp [hrunning r.item_id r (find_of_mem h.rows hr) hrun]
      · simp [hrun]
    simp [used, h.threads, hcount]

/-- Each process that is alive uses a slot. -/
theorem alive_le_used (h : Inv config start s) (queue : Text) :
    alive queue s ≤ used start queue s.rows s.threads := by
  have hnodup : ∀ q : Proc → Bool, ((s.procs.filter q).map Proc.item).Nodup := fun q =>
    h.ledger.once.sublist (List.filter_sublist.map _)
  -- those whose row runs
  have hrows : (s.procs.filter fun p => (p.queue = queue && p.code.isNone) && has p.item (· = .running) s.rows).length ≤
      running start queue s.rows := by
    rw [running, List.countP_eq_length_filter, ← List.length_map (f := Proc.item), ← List.length_map (f := Row.item_id)]
    refine (List.subperm_of_subset (hnodup _) fun item hi => ?_).length_le
    obtain ⟨p, hp, rfl⟩ := List.mem_map.1 hi
    rw [List.mem_filter, Bool.and_eq_true, Bool.and_eq_true] at hp
    obtain ⟨hmem, ⟨hq, -⟩, hrun⟩ := hp
    obtain ⟨hleft, r, hr, hrq⟩ := h.ledger.procs p hmem
    obtain ⟨r', hr', hrun⟩ := has_iff.1 hrun
    rw [hr] at hr'
    cases hr'
    obtain ⟨hrmem, hid⟩ := find_some hr
    refine List.mem_map.2 ⟨r, List.mem_filter.2 ⟨hrmem, ?_⟩, hid⟩
    simp [hrq, of_decide_eq_true hq, of_decide_eq_true hrun, hid, hleft]
  -- those that a thread is to set running
  have hthreads : (s.procs.filter fun p => (p.queue = queue && p.code.isNone) && !has p.item (· = .running) s.rows).length ≤
      s.threads.countP (Thread.holds queue) := by
    have hle : (s.threads.filterMap fun t => match t with
        | .start q item _ _ => if q = queue then some item else none
        | _ => none).length ≤ s.threads.countP (Thread.holds queue) := by
      rw [List.length_filterMap_eq_countP]
      refine List.countP_mono_left fun t _ ht => ?_
      cases t with
      | start q item proc items =>
        by_cases hq : q = queue
        · exact decide_eq_true hq
        · simp [hq] at ht
      | _ => simp at ht
    refine le_trans ?_ hle
    rw [← List.length_map (f := Proc.item)]
    refine (List.subperm_of_subset (hnodup _) fun item hi => ?_).length_le
    obtain ⟨p, hp, rfl⟩ := List.mem_map.1 hi
    rw [List.mem_filter, Bool.and_eq_true, Bool.and_eq_true] at hp
    obtain ⟨hmem, ⟨hq, hcode⟩, hrun⟩ := hp
    obtain ⟨i, hlt, rfl⟩ := List.mem_iff_getElem.1 hmem
    rcases h.crew.alive i _ (List.getElem?_eq_getElem hlt) (by simpa using hcode) with ⟨items, ht⟩ | hrun'
    · exact List.mem_filterMap.2 ⟨_, ht, by simp [of_decide_eq_true hq]⟩
    · rw [hrun'] at hrun
      cases hrun
  have hsplit : alive queue s =
      (s.procs.filter fun p => (p.queue = queue && p.code.isNone) && has p.item (· = .running) s.rows).length +
        (s.procs.filter fun p => (p.queue = queue && p.code.isNone) && !has p.item (· = .running) s.rows).length := by
    rw [alive, List.length_eq_length_filter_add (fun p => has p.item (· = .running) s.rows), List.filter_filter,
      List.filter_filter]
    simp only [Bool.and_comm]
  rw [used, hsplit]
  omega

theorem Inv.sound (h : Inv config start s) : Sound config start s where
  once := h.ledger.once
  cancelled := h.ledger.cancelled
  bounded queue concurrency hc := by
    have hle := alive_le_used h queue
    have haccount := h.account queue concurrency hc
    cases hslot : s.slots queue with
    | none =>
      rw [hslot] at haccount
      dsimp only at haccount
      omega
    | some slot =>
      rw [hslot] at haccount
      dsimp only at haccount
      omega
  settled queue concurrency slot hc hslot hsettled := by
    have haccount := h.account queue concurrency hc
    rw [hslot] at haccount
    have hthreads : s.threads.countP (Thread.holds queue) = 0 := List.countP_eq_zero.2 fun t ht => by
      rw [hsettled.1 t ht]
      simp
    have hrows : running start queue s.rows = 0 := by
      refine List.countP_eq_zero.2 fun r hr hcount => ?_
      simp only [Bool.and_eq_true, decide_eq_true_eq, Bool.not_eq_true'] at hcount
      have := hsettled.2 r hr hcount.1.1 hcount.2
      rw [hcount.1.2] at this
      cases this
    rw [used, hthreads, hrows] at haccount
    exact haccount

theorem items_killGroup (pid : Option ℕ) (code : ℤ) (procs : List Proc) :
    (killGroup pid code procs).map Proc.item = procs.map Proc.item := (ended_killGroup pid code procs).items

/-- What an operation leaves as it was. -/
theorem operate_launched (hs : operate config s th = some t) :
    t.launched = s.launched ∧ s.cancelled ⊆ t.cancelled := by
  cases th with
  | drain queue =>
    dsimp only [operate] at hs
    cases hc : config queue with
    | none =>
      rw [hc] at hs
      cases hs
      exact ⟨rfl, fun _ => id⟩
    | some concurrency =>
      rw [hc] at hs
      cases hs
      obtain ⟨-, -, hprocs, hcancelled⟩ := slotOf_rows queue concurrency s
      exact ⟨congrArg (List.map Proc.item) hprocs, fun x hx => hcancelled.symm ▸ hx⟩
  | acquire queue items =>
    cases items with
    | nil =>
      cases hs
      exact ⟨rfl, fun _ => id⟩
    | cons item items =>
      dsimp only [operate] at hs
      split at hs <;> cases hs <;> exact ⟨rfl, fun _ => id⟩
  | start queue item proc items =>
    obtain ⟨p, -, rfl⟩ := Option.map_eq_some_iff.1 hs
    exact ⟨rfl, fun _ => id⟩
  | own queue item proc =>
    dsimp only [operate] at hs
    split at hs
    · cases hs
      exact ⟨rfl, fun _ => id⟩
    · cases hs
  | get item =>
    dsimp only [operate] at hs
    split at hs <;> cases hs <;> exact ⟨rfl, fun _ => id⟩
  | cancel queue item =>
    dsimp only [operate] at hs
    split at hs <;> cases hs
    · exact ⟨rfl, fun _ hx => List.mem_cons_of_mem _ hx⟩
    · exact ⟨rfl, fun _ => id⟩
  | slot queue =>
    dsimp only [operate] at hs
    cases hc : config queue with
    | none =>
      rw [hc] at hs
      cases hs
      exact ⟨rfl, fun _ => id⟩
    | some concurrency =>
      rw [hc] at hs
      cases hs
      obtain ⟨-, -, hprocs, hcancelled⟩ := slotOf_rows queue concurrency s
      exact ⟨congrArg (List.map Proc.item) hprocs, fun x hx => hcancelled.symm ▸ hx⟩
  | launch => cases hs
  | kill => cases hs
  | _ =>
    cases hs
    exact ⟨rfl, fun _ => id⟩

/-- A step launches at most one item, one that the ledger does not say is cancelled. -/
theorem launched_step {e : Event} (hmeets : Meets start s e) (hs : step config s e = some t) :
    s.cancelled ⊆ t.cancelled ∧ (t.launched = s.launched ∨
      ∃ item, has item (· = .cancelled) s.rows = false ∧ t.launched = s.launched ++ [item]) := by
  cases e with
  | enqueue item queue now =>
    dsimp only [step] at hs
    split at hs <;> cases hs
    exact ⟨fun _ => id, .inl rfl⟩
  | drain queue =>
    cases hs
    exact ⟨fun _ => id, .inl rfl⟩
  | cancelPending item =>
    dsimp only [step] at hs
    split at hs <;> cases hs
    · exact ⟨fun _ hx => List.mem_cons_of_mem _ hx, .inl rfl⟩
    · exact ⟨fun _ => id, .inl rfl⟩
  | stop item =>
    cases hs
    exact ⟨fun _ => id, .inl rfl⟩
  | exit proc code =>
    dsimp only [step] at hs
    split at hs
    · rename_i p hp
      split at hs <;> cases hs
      exact ⟨fun _ => id, .inl (ended_set hp code).items⟩
    · cases hs
  | run th =>
    dsimp only [step] at hs
    split at hs
    · obtain ⟨hlaunched, hcancelled⟩ := operate_launched hs
      exact ⟨hcancelled, .inl hlaunched⟩
    · cases hs
  | launch th pid =>
    cases th with
    | launch queue item items =>
      dsimp only [step] at hs
      split at hs
      · cases pid with
        | none =>
          cases hs
          exact ⟨fun _ => id, .inl rfl⟩
        | some pid =>
          dsimp only at hs
          split at hs <;> cases hs
          simp only [Meets, meets, Bool.and_eq_true, Bool.not_eq_true'] at hmeets
          exact ⟨fun _ => id, .inr ⟨item, hmeets.2, by simp [State.launched, State.go]⟩⟩
      · cases hs
    | _ => cases hs
  | kill th code =>
    cases th with
    | kill queue item pid =>
      dsimp only [step] at hs
      split at hs <;> cases hs
      exact ⟨fun _ => id, .inl (items_killGroup pid code s.procs)⟩
    | _ => cases hs

/-- An item that is cancelled stays cancelled and is not launched again. -/
theorem cancelled_run {es : List Event} (h : Inv config start s) (hr : Run.run (step config) s es = some t)
    (hmeets : Run.Along (step config) (Meets start) s es) (hitem : item ∈ s.cancelled) :
    item ∈ t.cancelled ∧ t.launched.count item = s.launched.count item := by
  have hstep : ∀ (u : State) (e : Event) (v : State),
      (Inv config start u ∧ item ∈ u.cancelled ∧ u.launched.count item = s.launched.count item) →
      Meets start u e → step config u e = some v →
        Inv config start v ∧ item ∈ v.cancelled ∧ v.launched.count item = s.launched.count item := by
    rintro u e v ⟨hinv, hmem, hcount⟩ hm hs
    obtain ⟨hcancelled, hlaunched⟩ := launched_step hm hs
    refine ⟨inv_step u e v hinv hm hs, hcancelled hmem, ?_⟩
    rcases hlaunched with heq | ⟨x, hx, heq⟩
    · rw [heq, hcount]
    · have hne : x ≠ item := by
        rintro rfl
        rw [hinv.ledger.cancelled x hmem] at hx
        cases hx
      rw [heq, List.count_append, hcount, List.count_singleton]
      simp [hne]
  exact (Run.inv_run_of hstep hmeets ⟨h, hitem, rfl⟩ hr).2

/-- One queue. -/
def queueOf (concurrency : ℕ) : Config := fun queue => if queue = ['q'] then some concurrency else none

/-- Nothing is enqueued. -/
def empty : State := ⟨[], fun _ => none, [], [], []⟩

theorem start_empty : Start empty := ⟨List.nodup_nil, by simp [empty], fun _ => rfl, rfl, rfl, rfl⟩

/-- What `_drain` does up to its first launch. -/
def drained (items : List Text) : List Event :=
  [.run (.drain ['q']), .run (.listPending ['q']), .run (.acquire ['q'] items)]

/-- Two items are enqueued; the second is cancelled while the first one runs. -/
def cancelledBehind : List Event :=
  [.enqueue ['a'] ['q'] 1] ++ drained [['a']] ++ [.launch (.launch ['q'] ['a'] []) (some 7),
    .run (.start ['q'] ['a'] 0 []), .run (.acquire ['q'] []), .enqueue ['b'] ['q'] 2] ++ drained [['b']] ++
    [.cancelPending ['b'], .exit 0 0, .run (.own ['q'] ['a'] 0), .run (.release ['q']), .run (.drain ['q']),
      .run (.listPending ['q']), .run (.acquire ['q'] [])]

/-- Two threads drain the queue and both read the item as pending. -/
def launchedTwice : List Event :=
  [.enqueue ['a'] ['q'] 1, .drain ['q'], .run (.drain ['q']), .run (.drain ['q']), .run (.listPending ['q']),
    .run (.listPending ['q']), .run (.acquire ['q'] [['a']]), .run (.acquire ['q'] [['a']]),
    .launch (.launch ['q'] ['a'] []) (some 7), .launch (.launch ['q'] ['a'] []) (some 8)]

/-- The item is cancelled when a thread has read it as pending. -/
def cancelledLate : List Event :=
  [.enqueue ['a'] ['q'] 1, .run (.drain ['q']), .run (.listPending ['q']), .cancelPending ['a'],
    .run (.acquire ['q'] [['a']]), .launch (.launch ['q'] ['a'] []) (some 7), .run (.start ['q'] ['a'] 0 [])]

/-- One of two threads fails to launch the item, and the other launches it. -/
def slotLost : List Event :=
  [.enqueue ['a'] ['q'] 1, .drain ['q'], .run (.drain ['q']), .run (.drain ['q']), .run (.listPending ['q']),
    .run (.listPending ['q']), .run (.acquire ['q'] [['a']]), .launch (.launch ['q'] ['a'] []) none,
    .run (.giveBack ['q'] ['a'] []), .run (.acquire ['q'] [['a']]), .launch (.launch ['q'] ['a'] []) (some 7),
    .run (.start ['q'] ['a'] 0 []), .run (.fail ['q'] ['a'] []), .exit 0 0, .run (.own ['q'] ['a'] 0),
    .run (.acquire ['q'] []), .run (.acquire ['q'] [])]

/-- A row that an earlier groom left as running. -/
def afterRestart : State := { empty with rows := [⟨['o'], ['q'], .running, some 5, none, 0⟩] }

theorem start_afterRestart : Start afterRestart :=
  ⟨by decide, by decide, fun _ => rfl, rfl, rfl, rfl⟩

/-- The row is stopped before the queue has a semaphore, and two items are enqueued. -/
def slotGained : List Event :=
  [.stop ['o'], .run (.get ['o']), .kill (.kill ['q'] ['o'] (some 5)) (-9), .run (.cancel ['q'] ['o']),
    .run (.slot ['q']), .run (.release ['q']), .enqueue ['a'] ['q'] 1, .enqueue ['b'] ['q'] 2] ++
    drained [['a'], ['b']] ++ [.launch (.launch ['q'] ['a'] [['b']]) (some 7), .run (.start ['q'] ['a'] 0 [['b']]),
      .run (.acquire ['q'] [['b']]), .launch (.launch ['q'] ['b'] []) (some 8)]

/-- A state that is not sound, as far as the queue `q` shows it. -/
def broken (config : Config) (start s : State) : Bool :=
  !decide s.launched.Nodup || s.cancelled.any (fun item => !has item (· = .cancelled) s.rows) ||
    (config ['q']).any fun concurrency => concurrency < alive ['q'] s ||
      (s.slots ['q']).any fun slot => decide (Settled start ['q'] s) && slot.free ≠ concurrency - slot.occupied

theorem not_sound_of_broken (h : broken config start s = true) : ¬ Sound config start s := by
  intro hsound
  rw [broken, Bool.or_eq_true, Bool.or_eq_true] at h
  rcases h with (h | h) | h
  · simp [hsound.once] at h
  · obtain ⟨item, hitem, hnot⟩ := List.any_eq_true.1 h
    rw [hsound.cancelled item hitem] at hnot
    cases hnot
  · obtain ⟨concurrency, hc, h⟩ := (Option.any_eq_true _ _).1 h
    rcases Bool.or_eq_true_iff.1 h with h | h
    · have := hsound.bounded _ _ hc
      have hlt := of_decide_eq_true h
      omega
    · obtain ⟨slot, hslot, h⟩ := (Option.any_eq_true _ _).1 h
      rw [Bool.and_eq_true] at h
      exact of_decide_eq_true h.2 (hsound.settled _ _ _ hc hslot (of_decide_eq_true h.1))

/-- A run that comes to a state that is not sound. -/
def Breaks (config : Config) (start : State) (es : List Event) : Prop :=
  Start start ∧ ∃ s, Run.run (step config) start es = some s ∧ ¬ Sound config start s

theorem breaks_of_broken {es : List Event} (h : Start start)
    (hbroken : (Run.run (step config) start es).any (broken config start) = true) : Breaks config start es := by
  obtain ⟨s, hs, hb⟩ := (Option.any_eq_true _ _).1 hbroken
  exact ⟨h, s, hs, not_sound_of_broken hb⟩

end Stablemate.Dispatch
