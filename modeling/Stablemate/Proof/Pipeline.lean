import Stablemate.Model.Pipeline
import Stablemate.Proof.WorkList

/-!
# The drain is crash-safe

* `Inv`: the invariant over any visits, stops and resumes. Its heart is `owed` and `first`: a
  row that the drain has claimed and that is still active is one of the current chunk, or,
  after a stop, one of the first `n` active rows, which the resumed visit claims again; so the
  settle on entry never meets it.
* `inv_step`: every step keeps it, one lemma for each step that writes.
* `drain_crash_safe`: what the drain promises in every state that it reaches.
* `drain_limits`: what it does not.
-/

namespace Stablemate.Pipeline

open WorkList

variable {P : Type*} (d : Drain)

/-! ## The chunk -/

/-- The rows of the current chunk that are not settled. -/
def busy : Pc P → List Text
  | .capping capped dispatched => (capped ++ dispatched).map (·.id)
  | .dispatching rows => rows.map (·.id)
  | .inHandoff row rows => (row :: rows).map (·.id)
  | .returned row rows => (row :: rows).map (·.id)
  | _ => []

/-- The rows of the chunk that are still to be handed off. -/
def waiting : Pc P → List Text
  | .capping _ dispatched => dispatched.map (·.id)
  | .dispatching rows => rows.map (·.id)
  | .inHandoff _ rows => rows.map (·.id)
  | .returned _ rows => rows.map (·.id)
  | _ => []

/-- The rows over the cap that are still to be marked. -/
def overCap : Pc P → List Text
  | .capping capped _ => capped.map (·.id)
  | _ => []

/-- The chunk was cut short by a stop and has not been claimed again. -/
def interrupted : Pc P → Bool
  | .down => true
  | .entry resuming => resuming
  | .settled resuming => resuming
  | _ => false

/-- The row is one that the drain still has to bring to an end. -/
def inFlight (s : State P) (it : WorkItem P) : Bool :=
  (busy s.pc).contains it.id || (interrupted s.pc && d.scheme.isActive it && s.claimed it.id)

/-! ## The invariant -/

/-- A row as it was before the drain, and as it is now. -/
structure Track (s : State P) (a b : WorkItem P) : Prop where
  frame : frame b = frame a
  other : b.isKind d.kind = false → b = a
  untouched : s.claimed b.id = false →
    b = a ∨ d.scheme.isActive a = true ∧ b = { a with status := DONE }
  laps : s.requeued b.id = false →
    (s.handoffs b.id : ℤ) + a.laps + (if b.id ∈ waiting s.pc then 1 else 0) ≤ b.laps
  count : s.requeued b.id = false → (s.handoffs b.id : ℤ) ≤ max 0 (d.laps - a.laps)

/-- **The invariant of the drain.** -/
structure Inv (items : List (WorkItem P)) (s : State P) : Prop where
  track : List.Forall₂ (Track d s) items s.items
  ids : (s.items.map (·.id)).Nodup
  busyOnce : (busy s.pc).Nodup
  busyClaimed : ∀ id ∈ busy s.pc, s.claimed id = true
  owed : ∀ it ∈ s.items, it.isKind d.kind = true → d.scheme.isActive it = true →
    s.claimed it.id = true → inFlight d s it = true
  first : ∀ it ∈ rows d s.items, inFlight d s it = true →
    it ∈ ((rows d s.items).filter fun r => d.scheme.isActive r || inFlight d s r).take d.n.toNat
  waitingLaps : ∀ it ∈ s.items, it.id ∈ waiting s.pc → it.laps ≤ d.laps
  runningLaps : ∀ row rs, s.pc = .inHandoff row rs → ∀ it ∈ s.items, it.id = row.id →
    s.requeued it.id = false → it.laps ≤ d.laps
  capActive : ∀ it ∈ s.items, it.id ∈ overCap s.pc → d.scheme.isActive it = true
  capped : ∀ it ∈ s.items, it.isKind d.kind = true → s.claimed it.id = true →
    s.requeued it.id = false → d.laps < it.laps → it.status = BLOCKED ∨ it.id ∈ overCap s.pc ∨
      d.scheme.isActive it = true ∧ interrupted s.pc = true
  back : ∀ row rs, s.pc = .returned row rs → s.back row.id = true
  strict : d.strict = true → ∀ x ∈ s.items, s.claimed x.id = true → ¬ ActiveAtFirst d items x.id →
    ∀ y, Before d s.items y x → d.scheme.isDone y = true ∧ y.id ∉ busy s.pc

variable {d} {items : List (WorkItem P)} {s t : State P} {f : WorkItem P → WorkItem P}

theorem rows_map (hf : Keeps f) : rows d (items.map f) = (rows d items).map f := by
  unfold rows; rw [ofKind_map hf, ordered_map hf]

theorem mem_rows {it : WorkItem P} : it ∈ rows d items ↔ it ∈ items ∧ it.isKind d.kind = true := by
  unfold rows; rw [mem_ordered, mem_ofKind]

theorem Before.mem {x y : WorkItem P} (h : Before d items y x) :
    (y ∈ items ∧ y.isKind d.kind = true) ∧ x ∈ items ∧ x.isKind d.kind = true := by
  obtain ⟨pre, post, hrows, hy⟩ := h
  constructor
  · rw [← mem_rows, hrows]; exact List.mem_append_left _ hy
  · rw [← mem_rows, hrows]; simp

/-- Rewritten rows stand as the rows did. -/
theorem Before.of_map {x' y' : WorkItem P} (hf : Keeps f) (h : Before d (items.map f) y' x') :
    ∃ y x, y' = f y ∧ x' = f x ∧ Before d items y x := by
  obtain ⟨pre, post, hrows, hy⟩ := h
  rw [rows_map hf] at hrows
  obtain ⟨pre₀, rest, hsplit, rfl, hrest⟩ := List.map_eq_append_iff.1 hrows
  obtain ⟨x, post₀, rfl, rfl, rfl⟩ := List.map_eq_cons_iff.1 hrest
  obtain ⟨y, hy₀, rfl⟩ := List.mem_map.1 hy
  exact ⟨y, x, rfl, rfl, pre₀, post₀, hsplit, hy₀⟩

/-! ## What rewriting rows keeps -/

/-- A step that only takes rows out of the chunk or of the active ones keeps them first. -/
theorem first_rewrite (h : Inv d items s) (hf : Keeps f) (ht : t.items = s.items.map f)
    (hq : ∀ it ∈ s.items, it.isKind d.kind = true → inFlight d t (f it) = true →
      inFlight d s it = true)
    (hp : ∀ it ∈ s.items, it.isKind d.kind = true → d.scheme.isActive (f it) = true →
      d.scheme.isActive it = true ∨ inFlight d s it = true) :
    ∀ it ∈ rows d t.items, inFlight d t it = true →
      it ∈ ((rows d t.items).filter fun r => d.scheme.isActive r || inFlight d t r).take d.n.toNat := by
  intro it' hit' hin
  rw [ht, rows_map hf] at hit' ⊢
  obtain ⟨it, hit, rfl⟩ := List.mem_map.1 hit'
  have hmem := mem_rows.1 hit
  rw [List.filter_map, ← List.map_take]
  refine List.mem_map_of_mem ?_
  have hfirst := mem_take_filter (p := fun r => d.scheme.isActive (f r) || inFlight d t (f r))
    (h.first it hit (hq it hmem.1 hmem.2 hin)) (by simp [hin])
  -- what is active or in the chunk now was so before
  rw [List.filter_filter] at hfirst
  have hcongr : (rows d s.items).filter (fun r => (d.scheme.isActive (f r) || inFlight d t (f r)) &&
      (d.scheme.isActive r || inFlight d s r)) =
      (rows d s.items).filter ((fun r => d.scheme.isActive r || inFlight d t r) ∘ f) := by
    refine List.filter_congr fun r hr => ?_
    obtain ⟨hr, hkind⟩ := mem_rows.1 hr
    simp only [Function.comp_apply]
    by_cases hnow : (d.scheme.isActive (f r) || inFlight d t (f r)) = true
    · rw [hnow, Bool.true_and, Bool.or_eq_true]
      rcases Bool.or_eq_true_iff.1 hnow with h1 | h1
      · exact hp r hr hkind h1
      · exact .inr (hq r hr hkind h1)
    · rw [Bool.not_eq_true] at hnow
      rw [hnow, Bool.false_and]
  rw [hcongr] at hfirst
  exact hfirst

/-- What a strict drain has claimed keeps only done rows before it. -/
theorem strict_rewrite (h : Inv d items s) (hf : Keeps f) (ht : t.items = s.items.map f)
    (hclaimed : t.claimed = s.claimed) (hbusy : ∀ id ∈ busy t.pc, id ∈ busy s.pc)
    (hdone : ∀ y ∈ s.items, d.scheme.isDone y = true → y.id ∉ busy s.pc →
      d.scheme.isDone (f y) = true) :
    d.strict = true → ∀ x ∈ t.items, t.claimed x.id = true → ¬ ActiveAtFirst d items x.id →
      ∀ y, Before d t.items y x → d.scheme.isDone y = true ∧ y.id ∉ busy t.pc := by
  intro hs x' _ hx' hfirst y' hbefore'
  rw [ht] at hbefore'
  obtain ⟨y, x, rfl, rfl, hbefore⟩ := hbefore'.of_map hf
  rw [hf.id] at hx' hfirst
  rw [hclaimed] at hx'
  obtain ⟨h1, h2⟩ := h.strict hs x hbefore.mem.2.1 hx' hfirst y hbefore
  refine ⟨hdone y hbefore.mem.1.1 h1 h2, fun hb => ?_⟩
  rw [hf.id] at hb
  exact h2 (hbusy _ hb)

/-- A row is still tracked after a step that rewrites it, if a row that was never claimed can
only be settled. -/
theorem Track.rewrite {a b : WorkItem P} (h : Track d s a b) (hf : Keeps f) (hp : d.scheme.Proper)
    (hclaimed : t.claimed = s.claimed) (hhandoffs : t.handoffs = s.handoffs)
    (hwait : ∀ id ∈ waiting t.pc, id ∈ waiting s.pc)
    (hother : b.isKind d.kind = false → f b = b)
    (hfree : s.claimed b.id = false →
      f b = b ∨ d.scheme.isActive b = true ∧ f b = { b with status := DONE })
    (hlaps : t.requeued b.id = false → s.requeued b.id = false ∧ (f b).laps = b.laps) :
    Track d t a (f b) where
  frame := by
    rw [← h.frame]
    simp [Pipeline.frame, hf.id, hf.kind, hf.order, hf.content]
  other hk := by
    rw [hf.isKind] at hk
    rw [hother hk, h.other hk]
  untouched hc := by
    rw [hclaimed, hf.id] at hc
    rcases hfree hc with heq | ⟨hactive, heq⟩
    · rw [heq]; exact h.untouched hc
    · -- a settled row is not active, so it is not settled twice
      rcases h.untouched hc with hba | ⟨-, hba⟩
      · rw [← hba]
        exact .inr ⟨hactive, heq⟩
      · have hstatus : b.status = DONE := by rw [hba]
        rw [hp.not_active_done hstatus] at hactive
        cases hactive
  laps hr := by
    rw [hf.id] at hr ⊢
    obtain ⟨hr, heq⟩ := hlaps hr
    have hle := h.laps hr
    rw [hhandoffs, heq]
    split
    · rename_i hw
      rw [if_pos (hwait _ hw)] at hle
      exact hle
    · split at hle <;> omega
  count hr := by
    rw [hf.id] at hr ⊢
    rw [hhandoffs]
    exact h.count (hlaps hr).1

/-- **A step that rewrites rows and claims none keeps the invariant**, if it makes no row
active outside of the chunk, and lets go of a row only once it is not active. -/
theorem Inv.rewrite (h : Inv d items s) (hf : Keeps f) (ht : t.items = s.items.map f)
    (hclaimed : t.claimed = s.claimed) (hbusy : (busy t.pc).Sublist (busy s.pc))
    (htrack : ∀ a ∈ items, ∀ b ∈ s.items, Track d s a b → Track d t a (f b))
    (hactive : ∀ it ∈ s.items, it.isKind d.kind = true → d.scheme.isActive (f it) = true →
      d.scheme.isActive it = true ∨ it.id ∈ busy s.pc)
    (hlets : ∀ it ∈ s.items, it.isKind d.kind = true → d.scheme.isActive (f it) = true →
      it.id ∈ busy s.pc → it.id ∈ busy t.pc ∨ interrupted t.pc = true)
    (hinterrupted : ∀ it ∈ s.items, it.isKind d.kind = true → d.scheme.isActive it = true →
      s.claimed it.id = true → interrupted s.pc = true → interrupted t.pc = true)
    (hwait : ∀ it ∈ s.items, it.id ∈ waiting t.pc → it.id ∈ waiting s.pc ∧ (f it).laps = it.laps)
    (hrunning : ∀ row rs, t.pc = .inHandoff row rs → ∀ it ∈ t.items, it.id = row.id →
      t.requeued it.id = false → it.laps ≤ d.laps)
    (hover : ∀ it ∈ s.items, it.id ∈ overCap t.pc → it.id ∈ overCap s.pc ∧ f it = it)
    (hcapped : ∀ it ∈ s.items, it.isKind d.kind = true → s.claimed it.id = true →
      t.requeued it.id = false → d.laps < (f it).laps → (f it).status = BLOCKED ∨
        it.id ∈ overCap t.pc ∨ d.scheme.isActive (f it) = true ∧ interrupted t.pc = true)
    (hback : ∀ row rs, t.pc = .returned row rs → t.back row.id = true)
    (hdone : ∀ y ∈ s.items, d.scheme.isDone y = true → y.id ∉ busy s.pc →
      d.scheme.isDone (f y) = true) : Inv d items t where
  track := by
    rw [ht, List.forall₂_map_right_iff]
    exact forall₂_imp_mem h.track htrack
  ids := by rw [ht, hf.map_id]; exact h.ids
  busyOnce := h.busyOnce.sublist hbusy
  busyClaimed id hid := by rw [hclaimed]; exact h.busyClaimed id (hbusy.subset hid)
  owed it' hit' hkind hnow hc := by
    rw [ht] at hit'
    obtain ⟨it, hit, rfl⟩ := List.mem_map.1 hit'
    rw [hf.isKind] at hkind
    rw [hclaimed, hf.id] at hc
    -- it was owed before, so it was in the chunk or left over by a stop
    have hin : it.id ∈ busy s.pc ∨ it.id ∉ busy s.pc ∧ interrupted s.pc = true ∧
        d.scheme.isActive it = true := by
      by_cases hb : it.id ∈ busy s.pc
      · exact .inl hb
      · have := h.owed it hit hkind ((hactive it hit hkind hnow).resolve_right hb) hc
        simp [inFlight, hb] at this
        exact .inr ⟨hb, this.1.1, this.1.2⟩
    rcases hin with hb | ⟨-, hi, ha⟩
    · rcases hlets it hit hkind hnow hb with hb | hi
      · simp [inFlight, hf.id, hb]
      · simp [inFlight, hf.id, hi, hnow, hclaimed, hc]
    · simp [inFlight, hf.id, hinterrupted it hit hkind ha hc hi, hnow, hclaimed, hc]
  first := by
    -- no row comes into the chunk, and none becomes active outside of it
    refine first_rewrite h hf ht (fun it hit hkind hin => ?_) fun it hit hkind hnow => ?_
    · unfold inFlight at hin
      rw [hf.id, hclaimed] at hin
      simp only [Bool.or_eq_true, Bool.and_eq_true, List.contains_iff_mem] at hin
      rcases hin with hb | ⟨⟨-, hnow⟩, hc⟩
      · simp [inFlight, hbusy.subset hb]
      · rcases hactive it hit hkind hnow with ha | hb
        · exact h.owed it hit hkind ha hc
        · simp [inFlight, hb]
    · rcases hactive it hit hkind hnow with ha | hb
      · exact .inl ha
      · exact .inr (by simp [inFlight, hb])
  waitingLaps it' hit' hw := by
    rw [ht] at hit'
    obtain ⟨it, hit, rfl⟩ := List.mem_map.1 hit'
    rw [hf.id] at hw
    obtain ⟨hw, heq⟩ := hwait it hit hw
    rw [heq]
    exact h.waitingLaps it hit hw
  runningLaps := hrunning
  capActive it' hit' ho := by
    rw [ht] at hit'
    obtain ⟨it, hit, rfl⟩ := List.mem_map.1 hit'
    rw [hf.id] at ho
    obtain ⟨ho, heq⟩ := hover it hit ho
    rw [heq]
    exact h.capActive it hit ho
  capped it' hit' hkind hc hr hlaps := by
    rw [ht] at hit'
    obtain ⟨it, hit, rfl⟩ := List.mem_map.1 hit'
    rw [hf.id] at hr ⊢
    rw [hf.isKind] at hkind
    rw [hclaimed, hf.id] at hc
    exact hcapped it hit hkind hc hr hlaps
  back := hback
  strict := strict_rewrite h hf ht hclaimed (fun id hid => hbusy.subset hid) hdone

/-- A step that leaves the list alone and claims nothing keeps the invariant, if the rows it
lets go of are left to the next visit. -/
theorem Inv.quiet (h : Inv d items s) (ht : t.items = s.items) (hclaimed : t.claimed = s.claimed)
    (hrequeued : t.requeued = s.requeued)
    (htrack : ∀ a ∈ items, ∀ b ∈ s.items, Track d s a b → Track d t a b)
    (hbusy : (busy t.pc).Sublist (busy s.pc))
    (hlets : ∀ id ∈ busy s.pc, id ∈ busy t.pc ∨ interrupted t.pc = true)
    (hinterrupted : ∀ it ∈ s.items, it.isKind d.kind = true → d.scheme.isActive it = true →
      s.claimed it.id = true → interrupted s.pc = true → interrupted t.pc = true)
    (hwait : ∀ id ∈ waiting t.pc, id ∈ waiting s.pc)
    (hrunning : ∀ row rs, t.pc = .inHandoff row rs → row.id ∈ waiting s.pc)
    (hover : ∀ id ∈ overCap t.pc, id ∈ overCap s.pc)
    (hcap : ∀ id ∈ overCap s.pc, id ∈ overCap t.pc ∨ interrupted t.pc = true)
    (hback : ∀ row rs, t.pc = .returned row rs → t.back row.id = true) : Inv d items t := by
  refine h.rewrite keeps_id (by rw [ht, List.map_id']) hclaimed hbusy htrack
    (fun it _ _ ha => .inl ha) (fun it _ _ _ hb => hlets _ hb) hinterrupted
    (fun it _ hw => ⟨hwait _ hw, rfl⟩) (fun row rs hpc it hit hid _ => ?_)
    (fun it _ ho => ⟨hover _ ho, rfl⟩) (fun it hit hkind hc hr hlaps => ?_) hback
    fun y _ hy _ => hy
  · rw [ht] at hit
    exact h.waitingLaps it hit (hid ▸ hrunning row rs hpc)
  · rw [hrequeued] at hr
    rcases h.capped it hit hkind hc hr hlaps with hb | ho | ⟨ha, hi⟩
    · exact .inl hb
    · rcases hcap _ ho with ho' | hi
      · exact .inr (.inl ho')
      · exact .inr (.inr ⟨h.capActive it hit ho, hi⟩)
    · exact .inr (.inr ⟨ha, hinterrupted it hit hkind ha hc hi⟩)

/-- Tracking reads only the rows still to be handed off from the place in the code. -/
theorem Track.goto {a b : WorkItem P} (h : Track d s a b) (pc : Pc P) (back : Text → Bool)
    (hwait : ∀ id ∈ waiting pc, id ∈ waiting s.pc) :
    Track d { s with pc := pc, back := back } a b where
  frame := h.frame
  other := h.other
  untouched := h.untouched
  laps hr := by
    have hle := h.laps hr
    dsimp only at hr ⊢
    split
    · rename_i hw
      rwa [if_pos (hwait _ hw)] at hle
    · split at hle <;> omega
  count := h.count

/-- The process stops: what was in the chunk is left active. -/
theorem Inv.stop (h : Inv d items s) : Inv d items { s with pc := .down } :=
  h.quiet rfl rfl rfl (fun _ _ _ _ ht => ht.goto .down s.back (by simp [waiting]))
    (List.nil_sublist _) (fun _ _ => .inr rfl) (fun _ _ _ _ _ _ => rfl) (by simp [waiting])
    (by simp) (by simp [overCap]) (fun _ _ => .inr rfl) (by simp)

/-- A step over an empty chunk, or within a chunk. -/
theorem Inv.goto (h : Inv d items s) (pc : Pc P) (back : Text → Bool) (hbusy : busy pc = busy s.pc)
    (hinterrupted : interrupted pc = interrupted s.pc)
    (hwait : ∀ id ∈ waiting pc, id ∈ waiting s.pc) (hover : overCap pc = overCap s.pc)
    (hrunning : ∀ row rs, pc ≠ .inHandoff row rs)
    (hback : ∀ row rs, pc = .returned row rs → back row.id = true) :
    Inv d items { s with pc := pc, back := back } := by
  refine h.quiet rfl rfl rfl (fun _ _ _ _ ht => ht.goto pc back hwait) ?_ ?_ ?_ hwait
    (fun row rs hpc => absurd hpc (hrunning row rs)) ?_ ?_ hback
  · exact hbusy ▸ List.Sublist.refl _
  · exact fun id hid => .inl (hbusy ▸ hid)
  · exact fun _ _ _ _ _ hi => hinterrupted ▸ hi
  · exact fun id hid => hover ▸ hid
  · exact fun id hid => .inl (hover ▸ hid)

/-! ## The steps that write -/

/-- The first row of the chunk stands in it once. -/
theorem Inv.head_once (h : Inv d items s) {id : Text} {ids : List Text} (hbusy : busy s.pc = id :: ids) :
    id ∉ ids := by
  have hnodup := h.busyOnce
  rw [hbusy] at hnodup
  exact (List.nodup_cons.1 hnodup).1

/-- A row that the drain has not claimed is none of the chunk. -/
theorem Inv.ne_of_free (h : Inv d items s) {id id' : Text} (hbusy : id ∈ busy s.pc)
    (hfree : s.claimed id' = false) : id' ≠ id := by
  rintro rfl
  rw [h.busyClaimed _ hbusy] at hfree
  cases hfree

/-- The settle on entry meets no row that the drain has claimed. -/
theorem Inv.visit (h : Inv d items s) (hp : d.scheme.Proper) {resuming : Bool}
    (hpc : s.pc = .entry resuming) : Inv d items (visit d s resuming) := by
  cases resuming with
  | true =>
    exact h.goto (.settled true) s.back (by simp [busy, hpc]) (by simp [interrupted, hpc])
      (by simp [waiting]) (by simp [overCap, hpc]) (by simp) (by simp)
  | false =>
    -- no row is in flight here, so what the settle meets was not claimed
    let f : WorkItem P → WorkItem P := fun it =>
      if it.isKind d.kind = true ∧ d.scheme.isActive it = true then { it with status := DONE } else it
    have hf : Keeps f := keeps_ite (keeps_status DONE)
    have hitems : (Pipeline.visit d s false).items = s.items.map f := settle_held h.ids _ _
    have hlaps : ∀ it, (f it).laps = it.laps := fun it => by simp only [f]; split <;> rfl
    have hfix : ∀ it, d.scheme.isActive it = false → f it = it := fun it ha => by simp [f, ha]
    have hnot : ∀ it, it.isKind d.kind = true → d.scheme.isActive (f it) = false := by
      intro it hk
      by_cases ha : d.scheme.isActive it = true
      · exact hp.not_active_done (by simp [f, hk, ha])
      · rw [hfix it (by simpa using ha)]; simpa using ha
    have hbusy : busy s.pc = [] := by rw [hpc]; rfl
    have hcap : overCap s.pc = [] := by rw [hpc]; rfl
    have hint : interrupted s.pc = false := by rw [hpc]; rfl
    refine h.rewrite hf hitems rfl (List.nil_sublist _) (fun a _ b _ ht => ?_) ?_ ?_ ?_
      (by simp [Pipeline.visit, waiting]) (by simp [Pipeline.visit])
      (by simp [Pipeline.visit, overCap]) (fun it hit hk hc hr hl => ?_) (by simp [Pipeline.visit])
      fun y _ hy _ => ?_
    · refine ht.rewrite hf hp rfl rfl (by simp [Pipeline.visit, waiting]) (fun hk => by simp [f, hk])
        (fun _ => ?_) fun hr => ⟨hr, hlaps b⟩
      by_cases hb : b.isKind d.kind = true ∧ d.scheme.isActive b = true
      · exact .inr ⟨hb.2, if_pos hb⟩
      · exact .inl (if_neg hb)
    · intro it _ hk ha; rw [hnot it hk] at ha; cases ha
    · intro it _ hk ha; rw [hnot it hk] at ha; cases ha
    · intro _ _ _ _ _ hi; rw [hint] at hi; cases hi
    · rw [hlaps] at hl
      rcases h.capped it hit hk hc hr hl with hb | ho | ⟨-, hi⟩
      · left; rw [hfix it (hp.not_active_blocked hb), hb]
      · rw [hcap] at ho; cases ho
      · rw [hint] at hi; cases hi
    · rw [hfix y (hp.not_active_of_done hy)]; exact hy

/-- A row over the cap is marked blocked. -/
theorem Inv.cap (h : Inv d items s) (hp : d.scheme.Proper) {row : WorkItem P}
    {capped dispatched : List (WorkItem P)} (hpc : s.pc = .capping (row :: capped) dispatched) :
    Inv d items { s with
      items := mark row.id BLOCKED d.kind none s.items
      pc := .capping capped dispatched } := by
  let f : WorkItem P → WorkItem P := fun it =>
    if it.id = row.id ∧ it.isKind d.kind = true then
      { it with status := BLOCKED, note := (none : Option Text).getD it.note } else it
  have hf : Keeps f := keeps_ite (keeps_mark BLOCKED none)
  have hlaps : ∀ it, (f it).laps = it.laps := fun it => by simp only [f]; split <;> rfl
  have hfix : ∀ it, it.id ≠ row.id → f it = it := fun it hne => by simp [f, hne]
  have hmarked : ∀ it, it.id = row.id → it.isKind d.kind = true → (f it).status = BLOCKED :=
    fun it hid hk => by simp [f, hid, hk]
  have hbusy : busy s.pc = row.id :: (capped ++ dispatched).map (·.id) := by rw [hpc]; rfl
  have hover : overCap s.pc = row.id :: capped.map (·.id) := by rw [hpc]; rfl
  have hint : interrupted s.pc = false := by rw [hpc]; rfl
  have hone : row.id ∉ (capped ++ dispatched).map (·.id) := h.head_once hbusy
  have hrow : row.id ∈ busy s.pc := by rw [hbusy]; exact List.mem_cons_self
  have hactive : ∀ it ∈ s.items, it.isKind d.kind = true → d.scheme.isActive (f it) = true →
      it.id ≠ row.id := by
    rintro it - hk ha hid
    rw [hp.not_active_blocked (hmarked it hid hk)] at ha
    cases ha
  refine h.rewrite hf (mark_eq _ _ _) rfl ?_ (fun a _ b hb ht => ?_) (fun it hit hk ha => ?_)
    (fun it hit hk ha hb => ?_) (fun _ _ _ _ _ hi => ?_) (fun it _ hw => ⟨?_, hlaps it⟩) (by simp)
    (fun it _ ho => ⟨?_, hfix it ?_⟩) (fun it hit hk hc hr hl => ?_) (by simp) fun y _ hy hb => ?_
  · rw [hbusy]
    exact List.sublist_cons_self _ _
  · refine ht.rewrite hf hp rfl rfl (by simp [hpc, waiting]) (fun hk => by simp [f, hk]) (fun hc => ?_)
      fun hr => ⟨hr, hlaps b⟩
    exact .inl (hfix b (h.ne_of_free hrow hc))
  · left
    rw [hfix it (hactive it hit hk ha)] at ha
    exact ha
  · left
    rw [hbusy] at hb
    exact (List.mem_cons.1 hb).resolve_left (hactive it hit hk ha)
  · rw [hint] at hi; cases hi
  · rw [hpc]; exact hw
  · rw [hover]; exact List.mem_cons_of_mem _ ho
  · rintro hid
    refine hone ?_
    rw [← hid, List.map_append]
    exact List.mem_append_left _ ho
  · -- over the cap: this row is blocked now, and another one still waits for its mark
    rw [hlaps] at hl
    by_cases hid : it.id = row.id
    · exact .inl (hmarked it hid hk)
    · rw [hfix it hid]
      rcases h.capped it hit hk hc hr hl with hb | ho | ⟨-, hi⟩
      · exact .inl hb
      · rw [hover] at ho
        exact .inr (.inl ((List.mem_cons.1 ho).resolve_left hid))
      · rw [hint] at hi; cases hi
  · rw [hfix y fun hid => hb (hid ▸ hrow)]
    exact hy

/-- A row is handed off. -/
theorem Inv.handoff (h : Inv d items s) {row : WorkItem P} {rs : List (WorkItem P)}
    (hpc : s.pc = .dispatching (row :: rs)) :
    Inv d items { s with
      pc := .inHandoff row rs
      handoffs := upd s.handoffs row.id (s.handoffs row.id + 1) } := by
  have hwait : waiting s.pc = row.id :: rs.map (·.id) := by rw [hpc]; rfl
  have hone : row.id ∉ rs.map (·.id) := h.head_once (by rw [hpc]; rfl)
  refine h.quiet rfl rfl rfl (fun a _ b hb ht => ⟨ht.frame, ht.other, ht.untouched, fun hr => ?_, fun hr => ?_⟩)
    ?_ (fun _ hid => .inl ?_) (fun _ _ _ _ _ hi => ?_) (fun id hid => ?_) (fun row' rs' heq => ?_)
    (by simp [overCap]) (by simp [hpc, overCap]) (by simp)
  · -- the lap that was kept for the handoff is spent
    have hle := ht.laps hr
    rw [hwait] at hle
    by_cases hid : b.id = row.id
    · rw [hid] at hle hr ⊢
      rw [if_pos List.mem_cons_self] at hle
      rw [if_neg (show row.id ∉ waiting (Pc.inHandoff row rs) from hone)]
      simp only [upd, if_true]
      push_cast
      omega
    · simp only [List.mem_cons, hid, false_or] at hle
      simpa [upd, hid, waiting] using hle
  · -- the handoffs stay within the laps that the row began with
    by_cases hid : b.id = row.id
    · have hb' := h.waitingLaps b hb (by rw [hwait, hid]; exact List.mem_cons_self)
      have hle := ht.laps hr
      rw [if_pos (by rw [hwait, hid]; exact List.mem_cons_self)] at hle
      rw [hid] at hle ⊢
      simp only [upd, if_true]
      push_cast
      omega
    · simpa [upd, hid] using ht.count hr
  · rw [hpc]; exact List.Sublist.refl _
  · rw [hpc] at hid; exact hid
  · rw [hpc] at hi; cases hi
  · rw [hwait]; exact List.mem_cons_of_mem _ hid
  · cases heq
    rw [hwait]; exact List.mem_cons_self

/-- What `F` does to the row it runs for: nothing that the drain relies on. -/
theorem Inv.moved (h : Inv d items s) (hp : d.scheme.Proper) {row : WorkItem P}
    {rs : List (WorkItem P)} (hpc : s.pc = .inHandoff row rs) {g : WorkItem P → WorkItem P}
    (hg : Keeps g) (ht : t.items = s.items.map fun it =>
      if it.id = row.id ∧ it.isKind d.kind = true then g it else it)
    (htpc : t.pc = s.pc) (hclaimed : t.claimed = s.claimed) (hhandoffs : t.handoffs = s.handoffs)
    (hlaps : ∀ it, t.requeued it.id = false → s.requeued it.id = false ∧
      (it.id = row.id → (g it).laps = it.laps)) : Inv d items t := by
  let f : WorkItem P → WorkItem P := fun it => if it.id = row.id ∧ it.isKind d.kind = true then g it else it
  have hf : Keeps f := keeps_ite hg
  have hfix : ∀ it, it.id ≠ row.id → f it = it := fun it hne => by simp [f, hne]
  have hsame : ∀ it, t.requeued it.id = false → (f it).laps = it.laps := by
    intro it hr
    simp only [f]
    split
    · rename_i hid
      exact (hlaps it hr).2 hid.1
    · rfl
  have hbusy : busy s.pc = row.id :: rs.map (·.id) := by rw [hpc]; rfl
  have hrow : row.id ∈ busy s.pc := by rw [hbusy]; exact List.mem_cons_self
  have hone : row.id ∉ rs.map (·.id) := h.head_once hbusy
  have hint : interrupted s.pc = false := by rw [hpc]; rfl
  have hover : overCap s.pc = [] := by rw [hpc]; rfl
  have hwait : waiting s.pc = rs.map (·.id) := by rw [hpc]; rfl
  have hbelow : ∀ it ∈ s.items, it.id = row.id → t.requeued it.id = false → (f it).laps ≤ d.laps := by
    intro it hit hid hr
    rw [hsame it hr]
    exact h.runningLaps row rs hpc it hit hid (hlaps it hr).1
  refine h.rewrite hf ht hclaimed (by rw [htpc]) (fun a _ b hb htr => ?_) (fun it hit hk ha => ?_)
    (fun it _ _ _ hb => .inl (htpc ▸ hb)) (fun _ _ _ _ _ hi => htpc ▸ hi) (fun it _ hw => ?_)
    (fun row' rs' heq it hit hid hr => ?_) (fun it _ ho => ?_) (fun it hit hk hc hr hl => ?_)
    (fun row' rs' heq => ?_) fun y _ hy hb => ?_
  · exact htr.rewrite hf hp hclaimed hhandoffs (fun id hid => htpc ▸ hid) (fun hk => by simp [f, hk])
      (fun hc => .inl (hfix b (h.ne_of_free hrow hc))) fun hr => ⟨(hlaps b hr).1, hsame b hr⟩
  · by_cases hid : it.id = row.id
    · exact .inr (hid ▸ hrow)
    · rw [hfix it hid] at ha
      exact .inl ha
  · rw [htpc] at hw
    refine ⟨hw, ?_⟩
    rw [hfix it fun hid => ?_]
    rw [hwait, hid] at hw
    exact hone hw
  · rw [htpc, hpc] at heq
    cases heq
    rw [ht] at hit
    obtain ⟨it₀, hit₀, rfl⟩ := List.mem_map.1 hit
    rw [show (if it₀.id = row.id ∧ it₀.isKind d.kind = true then g it₀ else it₀) = f it₀ from rfl, hf.id] at hid hr
    exact hbelow it₀ hit₀ hid hr
  · rw [htpc, hover] at ho; cases ho
  · -- the row that runs is not over the cap
    by_cases hid : it.id = row.id
    · have := hbelow it hit hid hr
      omega
    · rw [hfix it hid] at hl ⊢
      rcases h.capped it hit hk hc (hlaps it hr).1 hl with hb | ho | ⟨-, hi⟩
      · exact .inl hb
      · rw [hover] at ho; cases ho
      · rw [hint] at hi; cases hi
  · rw [htpc, hpc] at heq; cases heq
  · rw [hfix y fun hid => hb (hid ▸ hrow)]
    exact hy

/-- The settle after a handoff lets go of its row. -/
theorem Inv.settle (h : Inv d items s) (hp : d.scheme.Proper) {row : WorkItem P}
    {rs : List (WorkItem P)} (hpc : s.pc = .returned row rs) :
    Inv d items { s with
      items := WorkList.settle (((ofKind s.items d.kind).filter fun it =>
        it.id == row.id && d.scheme.isActive it).map (·.id)) DONE d.kind s.items
      pc := .dispatching rs } := by
  let p : WorkItem P → Bool := fun it => it.id == row.id && d.scheme.isActive it
  let f : WorkItem P → WorkItem P := fun it =>
    if it.isKind d.kind = true ∧ p it = true then { it with status := DONE } else it
  have hf : Keeps f := keeps_ite (keeps_status DONE)
  have hlaps : ∀ it, (f it).laps = it.laps := fun it => by simp only [f]; split <;> rfl
  have hfix : ∀ it, it.id ≠ row.id ∨ d.scheme.isActive it = false → f it = it := by
    rintro it (hne | ha) <;> simp [f, p, *]
  have hbusy : busy s.pc = row.id :: rs.map (·.id) := by rw [hpc]; rfl
  have hrow : row.id ∈ busy s.pc := by rw [hbusy]; exact List.mem_cons_self
  have hint : interrupted s.pc = false := by rw [hpc]; rfl
  have hover : overCap s.pc = [] := by rw [hpc]; rfl
  have hactive : ∀ it, it.isKind d.kind = true → d.scheme.isActive (f it) = true →
      it.id ≠ row.id ∧ d.scheme.isActive it = true := by
    intro it hk ha
    by_cases hpit : p it = true
    · rw [hp.not_active_done (by simp [f, hk, hpit])] at ha
      cases ha
    · have heq : f it = it := if_neg fun hh => hpit hh.2
      rw [heq] at ha
      exact ⟨fun hid => hpit (by simp [p, hid, ha]), ha⟩
  refine h.rewrite hf (settle_held h.ids p DONE) rfl ?_ (fun a _ b hb ht => ?_)
    (fun it _ hk ha => .inl (hactive it hk ha).2) (fun it _ hk ha hb => .inl ?_)
    (fun _ _ _ _ _ hi => ?_) (fun it _ hw => ⟨?_, hlaps it⟩) (by simp) (by simp [overCap])
    (fun it hit hk hc hr hl => ?_) (by simp) fun y _ hy hb => ?_
  · rw [hbusy]; exact List.sublist_cons_self _ _
  · exact ht.rewrite hf hp rfl rfl (by simp [hpc, waiting]) (fun hk => by simp [f, hk])
      (fun hc => .inl (hfix b (.inl (h.ne_of_free hrow hc)))) fun hr => ⟨hr, hlaps b⟩
  · rw [hbusy] at hb
    exact (List.mem_cons.1 hb).resolve_left (hactive it hk ha).1
  · rw [hint] at hi; cases hi
  · rw [hpc]; exact hw
  · rw [hlaps] at hl
    rcases h.capped it hit hk hc hr hl with hb | ho | ⟨-, hi⟩
    · left; rw [hfix it (.inr (hp.not_active_blocked hb)), hb]
    · rw [hover] at ho; cases ho
    · rw [hint] at hi; cases hi
  · rw [hfix y (.inl fun hid => hb (hid ▸ hrow))]
    exact hy

/-! ## The claim -/

/-- The rows that the claim takes. -/
def taken (d : Drain) (items : List (WorkItem P)) : List (WorkItem P) :=
  nextRows d.scheme [] d.kind d.strict d.n items

theorem claim_nil (h : taken d s.items = []) : claim d s = { s with pc := .drained } := by
  unfold taken at h
  simp [claim, WorkList.claim, h]

/-- The chunk, split at the lap cap. -/
def chunk (d : Drain) (items : List (WorkItem P)) : Pc P :=
  .capping (((taken d items).map (·.claimed ACTIVE)).filter fun it => d.laps < it.laps)
    (((taken d items).map (·.claimed ACTIVE)).filter fun it => it.laps ≤ d.laps)

theorem claim_cons (h : taken d s.items ≠ []) : claim d s = { s with
    items := s.items.map fun it =>
      if it.id ∈ (taken d s.items).map (·.id) then it.claimed ACTIVE else it
    pc := chunk d s.items
    claimed := fun id => s.claimed id || ((taken d s.items).map (·.id)).contains id
    back := fun id => s.back id && !((taken d s.items).map (·.id)).contains id } := by
  cases hm : taken d s.items with
  | nil => exact absurd hm h
  | cons row rest =>
    unfold taken at hm
    simp [claim, WorkList.claim, chunk, taken, WorkItem.claimed, hm, Function.comp_def]

/-- A row that is taken is a row of the kind, and is active or pending. -/
theorem mem_taken {it : WorkItem P} (h : it ∈ taken d items) : it ∈ items ∧
    it.isKind d.kind = true ∧ (d.scheme.isActive it = true ∨ d.scheme.isPending it = true) := by
  unfold taken nextRows at h
  split at h
  · cases h
  · exact mem_candidates (List.mem_of_mem_take h)

theorem mem_taken_ids (hids : (items.map (·.id)).Nodup) {it : WorkItem P} (hit : it ∈ items) :
    it.id ∈ (taken d items).map (·.id) ↔ it ∈ taken d items := by
  rw [List.mem_map]
  constructor
  · rintro ⟨row, hrow, hid⟩
    obtain rfl : row = it := eq_of_key hids (mem_taken hrow).1 hit hid
    exact hrow
  · exact fun h => ⟨it, h, rfl⟩

theorem busy_chunk : (busy (chunk d items)).Perm ((taken d items).map (·.id)) := by
  have hsplit : (((taken d items).map (·.claimed ACTIVE)).filter (fun it => d.laps < it.laps) ++
      ((taken d items).map (·.claimed ACTIVE)).filter fun it => it.laps ≤ d.laps).Perm
      ((taken d items).map (·.claimed ACTIVE)) := by
    refine (List.Perm.of_eq (congrArg _ (List.filter_congr fun it _ => ?_))).trans
      (List.filter_append_perm (fun it : WorkItem P => decide (d.laps < it.laps)) _)
    rw [← decide_not]
    exact decide_eq_decide.2 Int.not_lt.symm
  refine (hsplit.map _).trans (List.Perm.of_eq ?_)
  rw [List.map_map]
  rfl

theorem mem_waiting_chunk (hids : (items.map (·.id)).Nodup) {it : WorkItem P} (hit : it ∈ items) :
    it.id ∈ waiting (chunk d items) ↔ it ∈ taken d items ∧ it.laps + 1 ≤ d.laps := by
  simp only [chunk, waiting, List.mem_map, List.mem_filter, decide_eq_true_eq]
  constructor
  · rintro ⟨_, ⟨⟨row, hrow, rfl⟩, hlaps⟩, hid⟩
    obtain rfl : row = it := eq_of_key hids (mem_taken hrow).1 hit hid
    exact ⟨hrow, hlaps⟩
  · exact fun ⟨hin, hlaps⟩ => ⟨_, ⟨⟨it, hin, rfl⟩, hlaps⟩, rfl⟩

theorem mem_overCap_chunk (hids : (items.map (·.id)).Nodup) {it : WorkItem P} (hit : it ∈ items) :
    it.id ∈ overCap (chunk d items) ↔ it ∈ taken d items ∧ d.laps < it.laps + 1 := by
  simp only [chunk, overCap, List.mem_map, List.mem_filter, decide_eq_true_eq]
  constructor
  · rintro ⟨_, ⟨⟨row, hrow, rfl⟩, hlaps⟩, hid⟩
    obtain rfl : row = it := eq_of_key hids (mem_taken hrow).1 hit hid
    exact ⟨hrow, hlaps⟩
  · exact fun ⟨hin, hlaps⟩ => ⟨_, ⟨⟨it, hin, rfl⟩, hlaps⟩, rfl⟩

theorem not_taken_of_done {it : WorkItem P} (hp : d.scheme.Proper)
    (hdone : d.scheme.isDone it = true) : it ∉ taken d items := by
  intro hit
  rcases (mem_taken hit).2.2 with ha | hpend
  · rw [hp.not_active_of_done hdone] at ha; cases ha
  · simp [Scheme.isPending, hdone] at hpend

/-- A resumed visit claims again what was cut short. -/
theorem Inv.taken_of_inFlight (h : Inv d items s) {resuming : Bool}
    (hpc : s.pc = .settled resuming) {it : WorkItem P} (hit : it ∈ s.items)
    (hkind : it.isKind d.kind = true) (hin : inFlight d s it = true) : it ∈ taken d s.items := by
  have hfirst := h.first it (mem_rows.2 ⟨hit, hkind⟩) hin
  have hfilter : ((rows d s.items).filter fun r => d.scheme.isActive r || inFlight d s r) =
      (rows d s.items).filter d.scheme.isActive := by
    refine List.filter_congr fun r _ => ?_
    cases ha : d.scheme.isActive r <;> simp [inFlight, hpc, busy, ha]
  rw [hfilter] at hfirst
  -- with `n` below 1 nothing comes first
  have hn : 1 ≤ d.n := by
    by_contra hn
    rw [show d.n.toNat = 0 by omega, List.take_zero] at hfirst
    cases hfirst
  unfold taken
  rw [nextRows_eq hn, candidates_eq, List.take_append]
  exact List.mem_append_left _ hfirst

/-- A row that is active and was never claimed was active at first. -/
theorem Inv.activeAtFirst (h : Inv d items s) (hp : d.scheme.Proper) {it : WorkItem P}
    (hit : it ∈ s.items) (ha : d.scheme.isActive it = true) (hc : s.claimed it.id = false) :
    ActiveAtFirst d items it.id := by
  obtain ⟨a, hmem, ht⟩ := exists_of_forall₂ h.track it hit
  rcases ht.untouched hc with rfl | ⟨-, heq⟩
  · exact ⟨it, hmem, rfl, ha⟩
  · rw [hp.not_active_done (by rw [heq])] at ha
    cases ha

/-- What the claim does to a row. -/
def take (d : Drain) (items : List (WorkItem P)) (it : WorkItem P) : WorkItem P :=
  if it.id ∈ (taken d items).map (·.id) then it.claimed ACTIVE else it

theorem keeps_take : Keeps (take d items) := keeps_ite (keeps_claimed ACTIVE)

theorem take_in (hids : (items.map (·.id)).Nodup) {it : WorkItem P} (hit : it ∈ items)
    (hin : it ∈ taken d items) : take d items it = it.claimed ACTIVE :=
  if_pos ((mem_taken_ids hids hit).2 hin)

theorem take_out (hids : (items.map (·.id)).Nodup) {it : WorkItem P} (hit : it ∈ items)
    (hout : it ∉ taken d items) : take d items it = it :=
  if_neg fun hid => hout ((mem_taken_ids hids hit).1 hid)

/-- A claim that takes a chunk: the rows taken become active, and the chunk is what it goes on with. -/
structure Claims (d : Drain) (s t : State P) : Prop where
  items : t.items = s.items.map (take d s.items)
  pc : t.pc = chunk d s.items
  handoffs : t.handoffs = s.handoffs
  requeued : t.requeued = s.requeued
  claimed : ∀ id, t.claimed id = true ↔ s.claimed id = true ∨ id ∈ (taken d s.items).map (·.id)

/-- A row after the claim is a row before it, taken or not. -/
theorem Claims.exists_row (hc : Claims d s t) {it' : WorkItem P} (hit' : it' ∈ t.items) :
    ∃ it ∈ s.items, it' = take d s.items it := by
  rw [hc.items] at hit'
  obtain ⟨it, hit, rfl⟩ := List.mem_map.1 hit'
  exact ⟨it, hit, rfl⟩

/-- The chunk is what was taken. -/
theorem Claims.inFlight_iff (hc : Claims d s t) (hids : (s.items.map (·.id)).Nodup) {it : WorkItem P}
    (hit : it ∈ s.items) : inFlight d t (take d s.items it) = true ↔ it ∈ taken d s.items := by
  have hint : interrupted t.pc = false := by rw [hc.pc]; rfl
  have hbusy : it.id ∈ busy t.pc ↔ it ∈ taken d s.items := by
    rw [hc.pc, busy_chunk.mem_iff, mem_taken_ids hids hit]
  simp [inFlight, keeps_take.id, hint, hbusy]

/-- What is active and claimed after the claim was taken: what a stop left active was in flight. -/
theorem Claims.mem_taken (hc : Claims d s t) (h : Inv d items s) {resuming : Bool}
    (hpc : s.pc = .settled resuming) {it : WorkItem P} (hit : it ∈ s.items) (hk : it.isKind d.kind = true)
    (ha : d.scheme.isActive (take d s.items it) = true) (hclaimed : t.claimed it.id = true) :
    it ∈ taken d s.items := by
  by_contra hout
  rw [take_out h.ids hit hout] at ha
  rcases (hc.claimed _).1 hclaimed with hclaimed | hid
  · exact hout (h.taken_of_inFlight hpc hit hk (h.owed it hit hk ha hclaimed))
  · exact hout ((mem_taken_ids h.ids hit).1 hid)

/-- A row is tracked over the claim: the lap that it gains is kept for its handoff. -/
theorem Claims.track (hc : Claims d s t) (hids : (s.items.map (·.id)).Nodup) {resuming : Bool}
    (hpc : s.pc = .settled resuming) {a b : WorkItem P} (hb : b ∈ s.items) (htr : Track d s a b) :
    Track d t a (take d s.items b) where
  frame := by
    rw [← htr.frame]
    simp [Pipeline.frame, keeps_take.id, keeps_take.kind, keeps_take.order, keeps_take.content]
  other hk := by
    rw [keeps_take.isKind] at hk
    have hout : b ∉ taken d s.items := fun hin => by
      rw [(Pipeline.mem_taken hin).2.1] at hk
      cases hk
    rw [take_out hids hb hout]
    exact htr.other hk
  untouched hfree := by
    rw [keeps_take.id, ← Bool.not_eq_true, hc.claimed, not_or, mem_taken_ids hids hb,
      Bool.not_eq_true] at hfree
    rw [take_out hids hb hfree.2]
    exact htr.untouched hfree.1
  laps hr := by
    rw [keeps_take.id, hc.requeued] at hr
    have hle := htr.laps hr
    rw [hpc] at hle
    simp only [waiting, List.not_mem_nil, if_false] at hle
    rw [keeps_take.id, hc.handoffs, hc.pc]
    by_cases hw : b.id ∈ waiting (chunk d s.items)
    · rw [if_pos hw, take_in hids hb ((mem_waiting_chunk hids hb).1 hw).1]
      simp only [WorkItem.claimed]
      omega
    · rw [if_neg hw]
      unfold take
      split
      · simp only [WorkItem.claimed]; omega
      · exact hle
  count hr := by
    rw [keeps_take.id] at hr ⊢
    rw [hc.handoffs]
    rw [hc.requeued] at hr
    exact htr.count hr

/-- **What was taken comes first**, among the rows that are active or in the chunk. -/
theorem Claims.first (hc : Claims d s t) (hids : (s.items.map (·.id)).Nodup) (hn : 1 ≤ d.n) :
    ∀ it ∈ rows d t.items, inFlight d t it = true →
      it ∈ ((rows d t.items).filter fun r => d.scheme.isActive r || inFlight d t r).take d.n.toNat := by
  intro it' hit' hin'
  rw [hc.items, rows_map keeps_take] at hit' ⊢
  obtain ⟨it, hit, rfl⟩ := List.mem_map.1 hit'
  rw [List.filter_map, ← List.map_take]
  refine List.mem_map_of_mem ?_
  -- a row that is not taken is active now if it was
  have hcongr : (rows d s.items).filter
      ((fun r => d.scheme.isActive r || inFlight d t r) ∘ take d s.items) =
      (rows d s.items).filter fun r => d.scheme.isActive r || inFlight d t (take d s.items r) := by
    refine List.filter_congr fun r hr => ?_
    have hr := (mem_rows.1 hr).1
    by_cases hrin : r ∈ taken d s.items
    · simp [(hc.inFlight_iff hids hr).2 hrin]
    · simp [take_out hids hr hrin]
  rw [hcongr]
  have htaken : ∀ r ∈ rows d s.items, inFlight d t (take d s.items r) = true ↔
      r ∈ ((rows d s.items).filter d.scheme.isActive ++
        pendingCandidates d.scheme [] d.strict (rows d s.items)).take d.n.toNat := by
    intro r hr
    rw [hc.inFlight_iff hids (mem_rows.1 hr).1]
    unfold taken
    rw [nextRows_eq hn, candidates_eq]
    rfl
  exact mem_take_filter_or (List.Nodup.of_map _ (nodup_ordered_ids _ hids)) htaken hit hin'

/-- A row over the cap is blocked already, or is in the chunk to be marked. -/
theorem Claims.capped (hc : Claims d s t) (h : Inv d items s) {resuming : Bool}
    (hpc : s.pc = .settled resuming) {it : WorkItem P} (hit : it ∈ s.items) (hk : it.isKind d.kind = true)
    (hclaimed : t.claimed it.id = true) (hr : t.requeued it.id = false)
    (hl : d.laps < (take d s.items it).laps) :
    (take d s.items it).status = BLOCKED ∨ it.id ∈ overCap t.pc := by
  -- a row that is not taken has the laps it had, and a stop has left none of these over
  by_cases hin : it ∈ taken d s.items
  · rw [take_in h.ids hit hin] at hl
    rw [hc.pc]
    exact .inr ((mem_overCap_chunk h.ids hit).2 ⟨hin, hl⟩)
  · rw [take_out h.ids hit hin] at hl ⊢
    rw [hc.claimed, mem_taken_ids h.ids hit, or_iff_left hin] at hclaimed
    rw [hc.requeued] at hr
    rcases h.capped it hit hk hclaimed hr hl with hb | ho | ⟨ha, -⟩
    · exact .inl hb
    · rw [hpc] at ho
      cases ho
    · exact absurd (h.taken_of_inFlight hpc hit hk (h.owed it hit hk ha hclaimed)) hin

/-- What a strict claim takes, and had not been active at first, has only done rows before it. -/
theorem Claims.strict (hc : Claims d s t) (h : Inv d items s) (hp : d.scheme.Proper) (hn : 1 ≤ d.n)
    (hs : d.strict = true) {x y : WorkItem P} (hclaimed : t.claimed x.id = true)
    (hfirst : ¬ ActiveAtFirst d items x.id) (hbefore : Before d s.items y x) :
    d.scheme.isDone y = true := by
  have hx := hbefore.mem.2
  by_cases hcs : s.claimed x.id = true
  · exact (h.strict hs x hx.1 hcs hfirst y hbefore).1
  · have hin : x ∈ taken d s.items :=
      (mem_taken_ids h.ids hx.1).1 (((hc.claimed _).1 hclaimed).resolve_left hcs)
    have hxa : d.scheme.isActive x = false := by
      rw [← Bool.not_eq_true]
      exact fun ha => hfirst (h.activeAtFirst hp hx.1 ha (by simpa using hcs))
    -- it was taken as a pending row, and these have only done rows before them
    have hcand : x ∈ candidates d.scheme [] d.kind true s.items := by
      unfold taken at hin
      rw [nextRows_eq hn, hs] at hin
      exact List.mem_of_mem_take hin
    obtain ⟨pre, post, hrows, hy⟩ := hbefore
    refine strict_candidate hcand hxa hrows (fun hpre => ?_) y hy
    -- a row stands once in the list
    have hnodup : (rows d s.items).Nodup := List.Nodup.of_map _ (nodup_ordered_ids _ h.ids)
    rw [hrows, List.nodup_append] at hnodup
    exact hnodup.2.2 x hpre x List.mem_cons_self rfl

/-- **The claim takes first what a stop left active**, so that no row of a cut chunk is
active outside of the new one. -/
theorem Inv.claim_chunk (h : Inv d items s) (hp : d.scheme.Proper) (hn : 1 ≤ d.n) {resuming : Bool}
    (hpc : s.pc = .settled resuming) (hc : Claims d s t) : Inv d items t where
  track := by
    rw [hc.items, List.forall₂_map_right_iff]
    exact forall₂_imp_mem h.track fun a _ b hb htr => hc.track h.ids hpc hb htr
  ids := by rw [hc.items, keeps_take.map_id]; exact h.ids
  busyOnce := by rw [hc.pc, busy_chunk.nodup_iff]; exact nodup_nextRows_ids h.ids
  busyClaimed id hid := by
    rw [hc.pc, busy_chunk.mem_iff] at hid
    exact (hc.claimed id).2 (.inr hid)
  owed it' hit' hk ha hclaimed := by
    obtain ⟨it, hit, rfl⟩ := hc.exists_row hit'
    rw [keeps_take.isKind] at hk
    rw [keeps_take.id] at hclaimed
    exact (hc.inFlight_iff h.ids hit).2 (hc.mem_taken h hpc hit hk ha hclaimed)
  first := hc.first h.ids hn
  waitingLaps it' hit' hw := by
    obtain ⟨it, hit, rfl⟩ := hc.exists_row hit'
    rw [keeps_take.id, hc.pc, mem_waiting_chunk h.ids hit] at hw
    rw [take_in h.ids hit hw.1]
    exact hw.2
  runningLaps row rs heq := by rw [hc.pc] at heq; cases heq
  capActive it' hit' ho := by
    obtain ⟨it, hit, rfl⟩ := hc.exists_row hit'
    rw [keeps_take.id, hc.pc, mem_overCap_chunk h.ids hit] at ho
    rw [take_in h.ids hit ho.1]
    simp [Scheme.isActive, WorkItem.claimed, hp.active]
  capped it' hit' hk hclaimed hr hl := by
    obtain ⟨it, hit, rfl⟩ := hc.exists_row hit'
    rw [keeps_take.isKind] at hk
    rw [keeps_take.id] at hclaimed hr ⊢
    exact (hc.capped h hpc hit hk hclaimed hr hl).imp_right .inl
  back row rs heq := by rw [hc.pc] at heq; cases heq
  strict hs x' _ hclaimed hfirst y' hbefore' := by
    rw [hc.items] at hbefore'
    obtain ⟨y, x, rfl, rfl, hbefore⟩ := hbefore'.of_map keeps_take
    rw [keeps_take.id] at hclaimed hfirst
    have hdone := hc.strict h hp hn hs hclaimed hfirst hbefore
    have hout : y ∉ taken d s.items := not_taken_of_done hp hdone
    have hy := hbefore.mem.1.1
    rw [take_out h.ids hy hout, hc.pc, busy_chunk.mem_iff, mem_taken_ids h.ids hy]
    exact ⟨hdone, hout⟩

/-- The claim keeps the invariant. -/
theorem Inv.claim (h : Inv d items s) (hp : d.scheme.Proper) {resuming : Bool}
    (hpc : s.pc = .settled resuming) : Inv d items (claim d s) := by
  by_cases hnil : taken d s.items = []
  · -- nothing is left to claim, so nothing that the drain has claimed is active
    rw [claim_nil hnil]
    refine h.quiet rfl rfl rfl (fun _ _ _ _ ht => ht.goto .drained s.back (by simp [waiting]))
      (List.nil_sublist _) (by simp [hpc, busy]) (fun it hit hk ha hc => ?_) (by simp [waiting]) (by simp)
      (by simp [overCap]) (by simp [hpc, overCap]) (by simp)
    have hin := h.taken_of_inFlight hpc hit hk (h.owed it hit hk ha hc)
    rw [hnil] at hin
    cases hin
  · have hn : 1 ≤ d.n := by
      by_contra hn
      exact hnil (if_pos (by omega))
    rw [claim_cons hnil]
    exact h.claim_chunk hp hn hpc ⟨rfl, rfl, rfl, rfl, fun id => by simp⟩

/-! ## Runs -/

/-- What a step can do, case by case. -/
inductive Moves (d : Drain) (s : State P) : Event → State P → Prop
  | visit {resuming : Bool} (hpc : s.pc = .entry resuming) : Moves d s .visit (visit d s resuming)
  | claim {resuming : Bool} (hpc : s.pc = .settled resuming) : Moves d s .claim (claim d s)
  | mark {row : WorkItem P} {capped dispatched : List (WorkItem P)}
    (hpc : s.pc = .capping (row :: capped) dispatched) :
    Moves d s .cap { s with
      items := WorkList.mark row.id BLOCKED d.kind none s.items
      pc := .capping capped dispatched }
  | allCapped (hpc : s.pc = .capping [] []) : Moves d s .cap { s with pc := .entry false }
  | dispatch {dispatched : List (WorkItem P)} (hpc : s.pc = .capping [] dispatched) :
    Moves d s .cap { s with pc := .dispatching dispatched }
  | handoff {row : WorkItem P} {rows : List (WorkItem P)} (hpc : s.pc = .dispatching (row :: rows)) :
    Moves d s .handoff { s with
      pc := .inHandoff row rows
      handoffs := upd s.handoffs row.id (s.handoffs row.id + 1) }
  | allDispatched (hpc : s.pc = .dispatching []) : Moves d s .handoff { s with pc := .entry false }
  | moves {row : WorkItem P} {rows : List (WorkItem P)} {status : Text} {note : Option Text}
    (hpc : s.pc = .inHandoff row rows) :
    Moves d s (.moves status note) { s with items := WorkList.mark row.id status d.kind note s.items }
  | requeues {row : WorkItem P} {rows : List (WorkItem P)} {note : Text}
    (hpc : s.pc = .inHandoff row rows) :
    Moves d s (.requeues note) { s with
      items := requeue [row.id] note d.kind s.items
      requeued := upd s.requeued row.id true }
  | finish {row : WorkItem P} {rows : List (WorkItem P)} (hpc : s.pc = .inHandoff row rows) :
    Moves d s .finish { s with pc := .returned row rows, back := upd s.back row.id true }
  | settle {row : WorkItem P} {rows : List (WorkItem P)} (hpc : s.pc = .returned row rows) :
    Moves d s .settle { s with
      items := WorkList.settle (((ofKind s.items d.kind).filter fun it =>
        it.id == row.id && d.scheme.isActive it).map (·.id)) DONE d.kind s.items
      pc := .dispatching rows }
  | again (hpc : s.pc = .drained) : Moves d s .again { s with pc := .entry false }
  | stop : Moves d s .stop { s with pc := .down }
  | resume (hpc : s.pc = .down) : Moves d s .resume { s with pc := .entry true }

theorem moves_of_step {e : Event} (he : step d s e = some t) : Moves d s e t := by
  cases e <;> simp only [step] at he <;> split at he <;> cases he
  all_goals constructor
  all_goals assumption

/-- **Every step keeps the invariant.** -/
theorem inv_step (hp : d.scheme.Proper) (s : State P) (e : Event) (t : State P)
    (h : Inv d items s) (he : step d s e = some t) : Inv d items t := by
  cases moves_of_step he with
  | visit hpc => exact h.visit hp hpc
  | claim hpc => exact h.claim hp hpc
  | mark hpc => exact h.cap hp hpc
  | allCapped hpc | allDispatched hpc | again hpc =>
    exact h.goto (.entry false) s.back (by rw [hpc]; rfl) (by rw [hpc]; rfl) (by simp [waiting])
      (by rw [hpc]; rfl) (by simp) (by simp)
  | dispatch hpc =>
    exact h.goto (.dispatching _) s.back (by rw [hpc]; rfl) (by rw [hpc]; rfl)
      (by rw [hpc]; exact fun _ hid => hid) (by rw [hpc]; rfl) (by simp) (by simp)
  | handoff hpc => exact h.handoff hpc
  | @moves row rows status note hpc =>
    exact h.moved hp hpc (keeps_mark status note) (mark_eq _ _ _) rfl rfl rfl fun _ hr => ⟨hr, fun _ => rfl⟩
  | @requeues row rows note hpc =>
    refine h.moved hp hpc (keeps_requeue note) (requeue_eq _ _) rfl rfl rfl fun it hr => ?_
    by_cases hid : it.id = row.id
    · simp [upd, hid] at hr
    · exact ⟨by simpa [upd, hid] using hr, fun h => absurd h hid⟩
  | @finish row rows hpc =>
    refine h.goto (.returned row rows) (upd s.back row.id true) (by rw [hpc]; rfl) (by rw [hpc]; rfl)
      (by rw [hpc]; exact fun _ hid => hid) (by rw [hpc]; rfl) (by simp) fun row' rows' heq => ?_
    cases heq
    simp [upd]
  | settle hpc => exact h.settle hp hpc
  | stop => exact h.stop
  | resume hpc =>
    exact h.goto (.entry true) s.back (by rw [hpc]; rfl) (by rw [hpc]; rfl) (by simp [waiting])
      (by rw [hpc]; rfl) (by simp) (by simp)

/-- The invariant holds before the drain has begun. -/
theorem inv_init (resuming : Bool) (hids : (items.map (·.id)).Nodup) :
    Inv d items (init resuming items) where
  track := by
    refine List.forall₂_same.2 fun a _ => ⟨rfl, fun _ => rfl, fun _ => .inl rfl, fun _ => ?_, fun _ => ?_⟩
    · simp [init, waiting]
    · simp [init]
  ids := hids
  busyOnce := List.nodup_nil
  busyClaimed id hid := by cases hid
  owed it _ _ _ hc := by cases hc
  first it _ hin := by simp [init, inFlight, busy] at hin
  waitingLaps it _ hw := by cases hw
  runningLaps row rs heq := by cases heq
  capActive it _ ho := by cases ho
  capped it _ _ hc := by cases hc
  back row rs heq := by cases heq
  strict _ x _ hc := by cases hc

/-- When `None` is returned the claim has found nothing. -/
theorem drained_run {resuming : Bool} {es : List Event}
    (hr : Run.run (step d) (init resuming items) es = some s) :
    s.pc = .drained → taken d s.items = [] := by
  have hstep : ∀ (s : State P) e (t : State P), (s.pc = .drained → taken d s.items = []) → step d s e = some t →
      t.pc = .drained → taken d t.items = [] := by
    intro s e t _ he ht
    cases moves_of_step he with
    | claim _ =>
      by_cases hnil : taken d s.items = []
      · rw [claim_nil hnil]; exact hnil
      · rw [claim_cons hnil] at ht; cases ht
    | moves hpc | requeues hpc => rw [hpc] at ht; cases ht
    | _ => cases ht
  exact Run.inv_run hstep (fun h => by cases h) hr

/-- After a rewriting a row is known by its id. -/
theorem Inv.eq_rewritten (h : Inv d items s) (hf : Keeps f) {x x' : WorkItem P} (hx : x ∈ s.items)
    (hx' : x' ∈ s.items.map f) (hid : x'.id = x.id) : x' = f x := by
  obtain ⟨y, hy, rfl⟩ := List.mem_map.1 hx'
  rw [hf.id] at hid
  rw [eq_of_key h.ids hy hx hid]

/-- **A row becomes done after its handoff**, or was active before the drain. -/
theorem Inv.done_step (h : Inv d items s) (hp : d.scheme.Proper) {e : Event}
    (he : step d s e = some t) (hflow : ¬ e.ofFlow) {x x' : WorkItem P} (hx : x ∈ s.items)
    (hx' : x' ∈ t.items) (hid : x'.id = x.id) (hk : x.isKind d.kind = true)
    (hopen : d.scheme.isDone x = false) (hdone : d.scheme.isDone x' = true) :
    s.back x.id = true ∨ ActiveAtFirst d items x.id ∧ s.claimed x.id = false := by
  -- a step that does not touch the row does not make it done
  have hsame : x' ≠ x := fun heq => by rw [heq, hopen] at hdone; cases hdone
  have hquiet : t.items ≠ s.items := fun heq => hsame (eq_of_key h.ids (heq ▸ hx') hx hid)
  cases moves_of_step he with
  | @visit resuming hpc =>
    cases resuming with
    | true => exact absurd rfl hquiet
    | false =>
      have hitems : (Pipeline.visit d s false).items = s.items.map fun it =>
          if it.isKind d.kind = true ∧ d.scheme.isActive it = true then { it with status := DONE } else it :=
        settle_held h.ids _ _
      rw [hitems] at hx'
      have heq := h.eq_rewritten (keeps_ite (keeps_status DONE)) hx hx' hid
      split at heq
      · rename_i ha
        -- what the drain has claimed and is active is in flight, and nothing is
        have hc : s.claimed x.id = false := by
          rw [← Bool.not_eq_true]
          intro hc
          have := h.owed x hx hk ha.2 hc
          simp [inFlight, hpc, busy, interrupted] at this
        exact .inr ⟨h.activeAtFirst hp hx ha.2 hc, hc⟩
      · exact absurd heq hsame
  | claim hpc =>
    by_cases hnil : taken d s.items = []
    · rw [claim_nil hnil] at hquiet
      exact absurd rfl hquiet
    · rw [claim_cons hnil] at hx'
      have heq : x' = take d s.items x := h.eq_rewritten keeps_take hx hx' hid
      unfold take at heq
      split at heq
      · rw [hp.not_done_active (by rw [heq]; rfl)] at hdone; cases hdone
      · exact absurd heq hsame
  | mark hpc =>
    rw [mark_eq] at hx'
    have heq := h.eq_rewritten (keeps_ite (keeps_mark BLOCKED none)) hx hx' hid
    split at heq
    · rw [hp.not_done_blocked (by rw [heq])] at hdone; cases hdone
    · exact absurd heq hsame
  | @settle row rows hpc =>
    rw [settle_held h.ids fun it => it.id == row.id && d.scheme.isActive it] at hx'
    have heq := h.eq_rewritten (keeps_ite (keeps_status DONE)) hx hx' hid
    split at heq
    · rename_i hheld
      have hrow : x.id = row.id := by simpa using (Bool.and_eq_true_iff.1 hheld.2).1
      exact .inl (hrow ▸ h.back row rows hpc)
    · exact absurd heq hsame
  | moves _ | requeues _ => exact absurd trivial hflow
  | _ => exact absurd rfl hquiet

/-- The drain is safe in a state: `items` is the list before it. -/
structure CrashSafe (d : Drain) (items : List (WorkItem P)) (s : State P) : Prop where
  /-- No row is dropped or moved, and rows of other kinds are as they were. -/
  kept : List.Forall₂ (fun a b => frame b = frame a ∧ (a.isKind d.kind = false → b = a)) items s.items
  /-- A row becomes done only after a handoff of it has returned since it was claimed, or if
  it was active before the drain and was not claimed. -/
  done : ∀ e t, step d s e = some t → ¬ e.ofFlow → ∀ x ∈ s.items, ∀ x' ∈ t.items, x'.id = x.id →
    x.isKind d.kind = true → d.scheme.isDone x = false → d.scheme.isDone x' = true →
      s.back x.id = true ∨ ActiveAtFirst d items x.id ∧ s.claimed x.id = false
  /-- A row that is not requeued is handed off once for each lap up to the cap. -/
  handoffs : ∀ a ∈ items, s.requeued a.id = false → (s.handoffs a.id : ℤ) ≤ max 0 (d.laps - a.laps)
  /-- A row over the cap is blocked. -/
  blocked : s.pc = .drained → ∀ x ∈ s.items, x.isKind d.kind = true → s.claimed x.id = true →
    s.requeued x.id = false → d.laps < x.laps → x.status = BLOCKED
  /-- At the end each row is done or blocked, or, in a strict drain, comes after a blocked one. -/
  drained : 1 ≤ d.n → s.pc = .drained → ∀ x ∈ s.items, x.isKind d.kind = true →
    d.scheme.isDone x = true ∨ d.scheme.isBlocked x = true ∨
      d.strict = true ∧ ∃ y, Before d s.items y x ∧ d.scheme.isBlocked y = true
  /-- A strict drain leaves the rows after a blocked one as they were. -/
  untouched : d.strict = true → ∀ x y, Before d s.items y x → d.scheme.isBlocked y = true →
    ¬ ActiveAtFirst d items x.id → x ∈ items

/-- **The drain is crash-safe** in every state that it reaches, over any visits, stops and
resumes. -/
theorem drain_crash_safe (hp : d.scheme.Proper) (hids : (items.map (·.id)).Nodup) {resuming : Bool}
    {es : List Event} (hr : Run.run (step d) (init resuming items) es = some s) :
    CrashSafe d items s := by
  have h : Inv d items s := Run.inv_run (inv_step hp) (inv_init resuming hids) hr
  have hid : ∀ {a b}, Track d s a b → b.id = a.id := fun ht => congrArg Prod.fst ht.frame
  exact {
    kept := h.track.imp fun a b ht => ⟨ht.frame, fun hk => ht.other (by
      have hkind : b.kind = a.kind := congrArg (fun f => f.2.1) ht.frame
      unfold WorkItem.isKind at hk ⊢
      rwa [hkind])⟩
    done := fun e t he hflow x hx x' hx' hid hk => h.done_step hp he hflow hx hx' hid hk
    handoffs := fun a ha hr => by
      obtain ⟨b, -, ht⟩ := exists_of_forall₂ h.track.flip a ha
      have hle := ht.count
      rw [hid ht] at hle
      exact hle hr
    blocked := fun hpc x hx hk hc hr hl => by
      rcases h.capped x hx hk hc hr hl with hb | ho | ⟨-, hi⟩
      · exact hb
      · rw [hpc] at ho; cases ho
      · rw [hpc] at hi; cases hi
    drained := fun hn hpc x hx hk => by
      have hnil := drained_run hr hpc
      unfold taken at hnil
      rw [nextRows_eq hn, List.take_eq_nil_iff] at hnil
      rcases (candidates_nil (hnil.resolve_left (by omega)) hx hk).2 with
        hd | hb | ⟨hs, y, pre, post, hrows, hy, hb⟩
      · exact .inl hd
      · exact .inr (.inl hb)
      · exact .inr (.inr ⟨hs, y, ⟨pre, post, hrows, hy⟩, hb⟩)
    untouched := fun hs x y hbefore hb hfirst => by
      have hx := hbefore.mem.2.1
      -- a claimed row has only done rows before it
      have hc : s.claimed x.id = false := by
        rw [← Bool.not_eq_true]
        intro hc
        have hdone := (h.strict hs x hx hc hfirst y hbefore).1
        rw [hp.not_done_of_blocked hb] at hdone
        cases hdone
      obtain ⟨a, ha, ht⟩ := exists_of_forall₂ h.track x hx
      rcases ht.untouched hc with rfl | ⟨hact, -⟩
      · exact ha
      · exact absurd ⟨a, ha, (hid ht).symm, hact⟩ hfirst }

/-- A list with one row. -/
def oneRow (status : Text) (laps : ℤ) : List (WorkItem Unit) :=
  [{ id := "a".toList, status, kind := "story".toList, order := none, laps, note := [], content := () }]

/-- The default scheme. -/
def plain : Scheme where
  done := [DONE]
  active := [ACTIVE]
  blocked := [BLOCKED]

theorem plain_proper : plain.Proper := by
  constructor <;> decide

/-- One row is drained over a stop in its handoff, which is begun again. -/
theorem drain_crash_safe_one : ∃ s, Run.run (step ⟨plain, none, 1, 10, false⟩) (init false (oneRow [] 0))
      [.visit, .claim, .cap, .handoff, .stop, .resume, .visit, .claim, .cap, .handoff, .finish,
        .settle, .handoff, .visit, .claim] = some s ∧
    CrashSafe ⟨plain, none, 1, 10, false⟩ (oneRow [] 0) s :=
  ⟨_, rfl, drain_crash_safe plain_proper (by decide) (show Run.run (step ⟨plain, none, 1, 10, false⟩)
    (init false (oneRow [] 0)) [.visit, .claim, .cap, .handoff, .stop, .resume, .visit, .claim, .cap,
      .handoff, .finish, .settle, .handoff, .visit, .claim] = some _ from rfl)⟩

/-- What the drain does not promise. A row that was active before the drain is settled with no
handoff. With `n = 0` the drain ends with the row open. If a blocked row counts as active, a row
over the cap is settled on the next entry. A row whose laps begin below 0 is handed off more
than `laps` times. -/
theorem drain_limits :
    (∃ s, Run.run (step ⟨plain, none, 1, 10, false⟩) (init false (oneRow ACTIVE 0)) [.visit] = some s ∧
      s.items = oneRow DONE 0 ∧ s.handoffs "a".toList = 0) ∧
    (∃ s, Run.run (step ⟨plain, none, 0, 10, false⟩) (init false (oneRow [] 0)) [.visit, .claim] = some s ∧
      s.items = oneRow [] 0 ∧ (s.pc matches .drained) = true) ∧
    (∃ s, Run.run (step ⟨{ plain with active := [ACTIVE, BLOCKED] }, none, 1, 0, false⟩)
        (init false (oneRow [] 0)) [.visit, .claim, .cap, .cap, .visit] = some s ∧
      s.items = oneRow DONE 1 ∧ s.handoffs "a".toList = 0) ∧
    (∃ s, Run.run (step ⟨plain, none, 1, 1, false⟩) (init false (oneRow [] (-1)))
        [.visit, .claim, .cap, .handoff, .stop, .resume, .visit, .claim, .cap, .handoff] = some s ∧
      s.requeued "a".toList = false ∧ s.handoffs "a".toList = 2) :=
  ⟨⟨_, rfl, by decide, rfl⟩, ⟨_, rfl, by decide, rfl⟩, ⟨_, rfl, by decide, rfl⟩, ⟨_, rfl, rfl, rfl⟩⟩

end Stablemate.Pipeline
