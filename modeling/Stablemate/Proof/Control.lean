import Mathlib.Data.List.Nodup
import Stablemate.Model.Control

/-!
# No deferred request is lost, as long as the slot is free when one is held

* `deferred_requests_kept`: **nothing acknowledged and left for later is lost if and only if
  no request was deferred while another was held**; each is returned by at most one
  `boundary_requested`, the next one if it is held; and, on every run, a request gets at most
  one reply, on the connection it came in on.
* `second_hold_loses_the_first`: an at-boundary reload and a profile switch, both
  acknowledged between two boundaries, and the reload is gone.

`Books` is the invariant between two events. `Slot` is all that an event can do to the slot.
-/

namespace Stablemate.Control

variable {s t : State} {e : Event} {es : List Event} {id : ℕ} {r : Request}

/-! ## The books -/

/-- **The invariant**: a connection is queued, or was taken, once; what was taken is replied
to on its own connection, held or returned. -/
structure Books (s : State) : Prop where
  queued : ∀ c ∈ waiting s.queue, c ∈ s.seen
  queuedOnce : (waiting s.queue).Nodup
  replied : ∀ x ∈ s.replies, x.conn = x.request ∧ x.conn ∈ s.seen ∧ x.conn ∉ waiting s.queue
  repliedOnce : (s.replies.map Replied.conn).Nodup
  held : ∀ id r, s.held = some (id, r) →
    r.deferred ∧ id ∈ s.seen ∧ id ∉ waiting s.queue ∧ id ∉ s.served ∧ id ∈ s.left
  left : ∀ id ∈ s.left, id ∈ s.seen ∧ id ∉ waiting s.queue
  served : ∀ id ∈ s.served, id ∈ s.seen ∧ id ∉ waiting s.queue
  servedOnce : s.served.Nodup

/-- The request `id` has just been taken: it is in none of the books yet. -/
structure Taken (s : State) (id : ℕ) : Prop where
  seen : id ∈ s.seen
  notWaiting : id ∉ waiting s.queue
  notServed : id ∉ s.served
  unanswered : id ∉ s.replies.map Replied.conn

theorem Books.endRun (h : Books s) : Books { s with ended := true } :=
  ⟨h.queued, h.queuedOnce, h.replied, h.repliedOnce, h.held, h.left, h.served, h.servedOnce⟩

theorem Books.unwind (h : Books s) (r : Request) : Books (unwind s r) := by
  unfold Control.unwind
  split
  · exact h.endRun
  · exact h

theorem reply_open (hc : s.conn = some id) (payload : Reply) :
    reply s id payload = { s with conn := none, replies := ⟨id, id, payload⟩ :: s.replies } := by
  unfold reply; rw [hc]

theorem reply_closed (hc : s.conn = none) (payload : Reply) : reply s id payload = s := by
  unfold reply; rw [hc]

@[simp] theorem reply_conn (s : State) (id : ℕ) (payload : Reply) : (reply s id payload).conn = none := by
  unfold reply; split
  · assumption
  · rfl

@[simp] theorem reply_held (s : State) (id : ℕ) (payload : Reply) :
    (reply s id payload).held = s.held := by unfold reply; split <;> rfl
@[simp] theorem reply_left (s : State) (id : ℕ) (payload : Reply) :
    (reply s id payload).left = s.left := by unfold reply; split <;> rfl
@[simp] theorem reply_served (s : State) (id : ℕ) (payload : Reply) :
    (reply s id payload).served = s.served := by unfold reply; split <;> rfl
@[simp] theorem reply_seen (s : State) (id : ℕ) (payload : Reply) :
    (reply s id payload).seen = s.seen := by unfold reply; split <;> rfl
@[simp] theorem reply_queue (s : State) (id : ℕ) (payload : Reply) :
    (reply s id payload).queue = s.queue := by unfold reply; split <;> rfl

@[simp] theorem unwind_conn (s : State) (r : Request) : (unwind s r).conn = s.conn := by
  unfold unwind; split <;> rfl
@[simp] theorem unwind_held (s : State) (r : Request) : (unwind s r).held = s.held := by
  unfold unwind; split <;> rfl
@[simp] theorem unwind_left (s : State) (r : Request) : (unwind s r).left = s.left := by
  unfold unwind; split <;> rfl
@[simp] theorem unwind_served (s : State) (r : Request) : (unwind s r).served = s.served := by
  unfold unwind; split <;> rfl

/-- A reply to the request that was just taken goes to its own connection, once. -/
theorem Books.reply (h : Books s) (hc : s.conn = some id) (ht : Taken s id) (payload : Reply) :
    Books (reply s id payload) := by
  rw [reply_open hc]
  refine { h with replied := fun x hx => ?_, repliedOnce := ?_ }
  · rcases List.mem_cons.1 hx with rfl | hx
    · exact ⟨rfl, ht.seen, ht.notWaiting⟩
    · exact h.replied x hx
  · exact List.nodup_cons.2 ⟨ht.unanswered, h.repliedOnce⟩

/-- Holding a request for the boundary. -/
theorem Books.hold (h : Books s) (hr : r.deferred) (hseen : id ∈ s.seen)
    (hwait : id ∉ waiting s.queue) (hserved : id ∉ s.served) : Books (hold s id r) := by
  refine { h with held := fun id' r' h' => ?_, left := fun id' h' => ?_ }
  · cases h'
    exact ⟨hr, hseen, hwait, hserved, List.mem_cons_self⟩
  · rcases List.mem_cons.1 h' with rfl | h'
    · exact ⟨hseen, hwait⟩
    · exact h.left id' h'

/-- Returning a request from `boundary_requested`. -/
theorem Books.serve (h : Books s) (hheld : s.held = none) (hseen : id ∈ s.seen)
    (hwait : id ∉ waiting s.queue) (hserved : id ∉ s.served) :
    Books { s with served := id :: s.served } := by
  refine { h with held := fun id' r' h' => ?_, served := fun id' h' => ?_, servedOnce := ?_ }
  · rw [hheld] at h'; cases h'
  · rcases List.mem_cons.1 h' with rfl | h'
    · exact ⟨hseen, hwait⟩
    · exact h.served id' h'
  · exact List.nodup_cons.2 ⟨hserved, h.servedOnce⟩

/-! ## Taking a request off the channel -/

/-- The connection at the head of the queue is new to every book. -/
theorem Books.pop {c : ℕ} {m : Message} {queue : List (ℕ × Message)}
    (h : Books { s with queue := (c, m) :: queue }) (conn : Option ℕ) :
    Books { s with queue := queue, conn := conn } ∧ Taken { s with queue := queue, conn := conn } c := by
  have hnodup := List.nodup_cons.1 h.queuedOnce
  have hmem : ∀ {x}, x ∈ waiting queue → x ∈ waiting ((c, m) :: queue) := fun hx =>
    List.mem_cons_of_mem _ hx
  have hhead : c ∈ waiting ((c, m) :: queue) := List.mem_cons_self
  refine ⟨⟨fun x hx => h.queued x (hmem hx), hnodup.2,
    fun x hx => ⟨(h.replied x hx).1, (h.replied x hx).2.1, fun hq => (h.replied x hx).2.2 (hmem hq)⟩,
    h.repliedOnce, fun x r hx => ?_, fun x hx => ⟨(h.left x hx).1, fun hq => (h.left x hx).2 (hmem hq)⟩,
    fun x hx => ⟨(h.served x hx).1, fun hq => (h.served x hx).2 (hmem hq)⟩, h.servedOnce⟩,
    h.queued c hhead, hnodup.1, fun hs => (h.served c hs).2 hhead, fun hr => ?_⟩
  · obtain ⟨h1, h2, h3, h4⟩ := h.held x r hx
    exact ⟨h1, h2, fun hq => h3 (hmem hq), h4⟩
  · obtain ⟨x, hx, rfl⟩ := List.mem_map.1 hr
    exact (h.replied x hx).2.2 hhead

/-- What `_delivered` leaves behind. -/
structure Delivered (s t : State) (o : Option (ℕ × Request)) : Prop where
  books : Books t
  held : t.held = s.held
  left : t.left = s.left
  served : t.served = s.served
  none_ : o = none → t.conn = none
  some_ : ∀ id r, o = some (id, r) → t.conn = some id ∧ Taken t id ∧ id ∈ waiting s.queue

theorem deliver_spec : ∀ (queue : List (ℕ × Message)) (s : State), Books { s with queue := queue } →
    Delivered { s with queue := queue } (deliver queue s).2 (deliver queue s).1
  | [], s, h => ⟨{ h with }, rfl, rfl, rfl, fun _ => rfl, fun _ _ h => by cases h⟩
  | (_, .unreadable) :: queue, s, h =>
    ⟨(h.pop none).1, rfl, rfl, rfl, fun _ => rfl, fun _ _ h => by cases h⟩
  | (c, .request r) :: queue, s, h => by
    obtain ⟨hbooks, htaken⟩ := h.pop (some c)
    -- a query is answered on its own connection, and the next one is read
    have hquery : ∀ payload,
        Delivered { s with queue := (c, .request r) :: queue }
          (deliver queue (reply { s with queue := queue, conn := some c } c payload)).2
          (deliver queue (reply { s with queue := queue, conn := some c } c payload)).1 := by
      intro payload
      have hb := hbooks.reply rfl htaken payload
      have hq : ({ reply { s with queue := queue, conn := some c } c payload with queue := queue } :
          State) = reply { s with queue := queue, conn := some c } c payload := by
        rw [reply_open rfl]
      have hd := deliver_spec queue _ (by rw [hq]; exact hb)
      rw [hq] at hd
      exact ⟨hd.books, by simpa using hd.held, by simpa using hd.left, by simpa using hd.served,
        hd.none_, fun id' r' ho => by
          obtain ⟨h1, h2, h3⟩ := hd.some_ id' r' ho
          rw [reply_queue] at h3
          exact ⟨h1, h2, List.mem_cons_of_mem _ h3⟩⟩
    unfold deliver
    dsimp only
    split
    · exact hquery _
    split
    · exact hquery _
    · refine ⟨hbooks, rfl, rfl, rfl, fun h => (by cases h), fun id' r' ho => ?_⟩
      cases ho
      exact ⟨rfl, htaken, List.mem_cons_self⟩

theorem delivered_spec (h : Books s) : Delivered s (delivered s).2 (delivered s).1 :=
  deliver_spec s.queue s h

/-! ## What an event does to the slot -/

/-- All that an event can do to the slot, to what is left for later and to what is returned.
A new request is one that still waited in the queue. -/
inductive Slot (s t : State) : Prop
  | kept (h : t.held = s.held) (hl : t.left = s.left) (hv : t.served = s.served)
  | holds (id : ℕ) (r : Request) (hr : r.deferred) (hd : (delivered s).1 = some (id, r))
      (hq : id ∈ waiting s.queue) (h : t.held = some (id, r)) (hl : t.left = id :: s.left)
      (hv : t.served = s.served)
  | returns (id : ℕ) (r : Request) (hs : s.held = some (id, r)) (h : t.held = none)
      (hl : t.left = s.left) (hv : t.served = id :: s.served)
  | passes (id : ℕ) (hs : s.held = none) (hq : id ∈ waiting s.queue) (h : t.held = none)
      (hl : t.left = s.left) (hv : t.served = id :: s.served)

/-- What every event leaves: books that balance, no open connection, and the slot's change. -/
structure Kept (s t : State) : Prop where
  books : Books t
  closed : t.conn = none
  slot : Slot s t

theorem Kept.endRun (h : Kept s t) : Kept s { t with ended := true } := by
  refine ⟨h.books.endRun, h.closed, ?_⟩
  cases h.slot with
  | kept h hl hv => exact .kept h hl hv
  | holds id r hr hd hq h hl hv => exact .holds id r hr hd hq h hl hv
  | returns id r hs h hl hv => exact .returns id r hs h hl hv
  | passes id hs hq h hl hv => exact .passes id hs hq h hl hv

theorem Kept.unwind (h : Kept s t) (r : Request) : Kept s (unwind t r) := by
  unfold Control.unwind
  split
  · exact h.endRun
  · exact h

section Sites

variable {u : State}

/-- A look at the channel that found nothing. -/
theorem Delivered.kept_none (hd : Delivered s u none) : Kept s u :=
  ⟨hd.books, hd.none_ rfl, .kept hd.held hd.left hd.served⟩

/-- The request that was taken is answered. -/
theorem Delivered.reply (hd : Delivered s u (some (id, r))) (payload : Reply) :
    Kept s (reply u id payload) := by
  obtain ⟨hc, ht, -⟩ := hd.some_ id r rfl
  exact ⟨hd.books.reply hc ht payload, reply_conn u id payload,
    .kept (by simp [hd.held]) (by simp [hd.left]) (by simp [hd.served])⟩

/-- It is answered and held. -/
theorem Delivered.hold (hd : Delivered s u (some (id, r))) (hdel : (delivered s).1 = some (id, r))
    (hr : r.deferred) (payload : Reply) : Kept s (hold (Control.reply u id payload) id r) := by
  obtain ⟨-, ht, hq⟩ := hd.some_ id r rfl
  have hb := (hd.reply payload).books.hold hr (by rw [reply_seen]; exact ht.seen)
    (by rw [reply_queue]; exact ht.notWaiting) (by rw [reply_served]; exact ht.notServed)
  exact ⟨hb, reply_conn u id payload,
    .holds id r hr hdel hq rfl (by simp [Control.hold, hd.left]) (by simp [Control.hold, hd.served])⟩

/-- It is answered and returned at once. -/
theorem Delivered.pass (hd : Delivered s u (some (id, r))) (hs : s.held = none) (payload : Reply) :
    Kept s { Control.reply u id payload with served := id :: (Control.reply u id payload).served } := by
  obtain ⟨-, ht, hq⟩ := hd.some_ id r rfl
  have hb := (hd.reply payload).books.serve (by rw [reply_held, hd.held, hs])
    (by rw [reply_seen]; exact ht.seen) (by rw [reply_queue]; exact ht.notWaiting)
    (by rw [reply_served]; exact ht.notServed)
  exact ⟨hb, reply_conn u id payload,
    .passes id hs hq (by simp [hd.held, hs]) (by simp [hd.left]) (by simp [hd.served])⟩

/-- The policy of `cut_by` for a request that was taken off the channel. -/
theorem cutBy_kept (hd : Delivered s u (some (id, r))) (hdel : (delivered s).1 = some (id, r)) :
    Kept s (cutBy u id r) := by
  unfold cutBy
  split
  · exact (hd.reply _).endRun
  split
  · rename_i h; exact hd.hold hdel (.inl h) _
  split
  · exact hd.reply _
  split
  · exact hd.reply _
  split
  · rename_i h h'; exact hd.hold hdel (.inr ⟨not_not.1 h, h'⟩) _
  · exact (hd.reply _).unwind r

end Sites

theorem cutRequested_kept (h : Books s) : Kept s (cutRequested s) := by
  have hd := delivered_spec h
  unfold cutRequested
  cases hdel : delivered s with
  | mk o u =>
    rw [hdel] at hd
    cases o with
    | none => exact hd.kept_none
    | some x => exact cutBy_kept hd (by rw [hdel])

theorem parkedOn_kept (h : Books s) (operator : Bool) (asked : Text) (file : Gates.File)
    (writes : Bool) : Kept s (parkedOn s operator asked file writes) := by
  have hd := delivered_spec h
  unfold parkedOn
  cases hdel : delivered s with
  | mk o u =>
    rw [hdel] at hd
    cases o with
    | none => exact hd.kept_none
    | some x =>
      dsimp only
      split
      · exact hd.reply _
      · exact cutBy_kept hd (by rw [hdel])

/-- The boundary returns the held request; nothing is written, for its connection is closed. -/
theorem boundary_held (h : Books s) (hc : s.conn = none) (hs : s.held = some (id, r))
    (switches : Bool) : Kept s (boundary s switches) ∧ id ∈ (boundary s switches).served := by
  obtain ⟨hr, hseen, hwait, hserved, -⟩ := h.held id r hs
  have hfree : Books { s with held := none } := { h with held := fun _ _ h => by cases h }
  have hserve := hfree.serve rfl hseen hwait hserved
  unfold boundary outstanding
  rw [hs]
  dsimp only
  rcases hr with hr | ⟨hr, -⟩
  · rw [if_neg (by rw [hr]; decide), if_pos hr, reply_closed (by exact hc)]
    exact ⟨⟨hserve, hc, .returns id r hs rfl rfl rfl⟩, List.mem_cons_self⟩
  · rw [if_neg (by rw [hr]; decide), if_neg (by rw [hr]; decide), if_neg (by rw [hr]; decide),
      if_neg (by simp [hr]), reply_closed (by exact hc)]
    exact ⟨⟨hserve.unwind r, by simpa using hc, .returns id r hs (by simp) (by simp) (by simp)⟩,
      by simp⟩

theorem reply_served_comm (s : State) (ids : List ℕ) (id : ℕ) (payload : Reply) :
    reply { s with served := ids } id payload = { reply s id payload with served := ids } := by
  unfold reply
  dsimp only
  split <;> rfl

/-- With the slot empty the boundary reads the channel. -/
theorem boundary_free (h : Books s) (hs : s.held = none) (switches : Bool) :
    Kept s (boundary s switches) := by
  -- nothing is held, so the boundary takes what the channel delivers
  have hd := delivered_spec h
  unfold boundary outstanding
  rw [hs]
  dsimp only
  cases hdel : delivered s with
  | mk o u =>
    rw [hdel] at hd
    cases o with
    | none => exact hd.kept_none
    | some x =>
      obtain ⟨id, r⟩ := x
      dsimp only
      split
      · exact (hd.reply _).endRun
      split
      · rw [reply_served_comm, ← reply_served u id (.switched switches)]
        exact hd.pass hs _
      split
      · exact hd.reply _
      split
      · exact hd.reply _
      · exact (hd.pass hs _).unwind r

/-- A new connection joins the queue. -/
theorem Books.connect {c : ℕ} (h : Books s) (hc : c ∉ s.seen) (m : Message) :
    Books { s with queue := s.queue ++ [(c, m)], seen := c :: s.seen } := by
  have hmem : ∀ {x}, x ∈ waiting (s.queue ++ [(c, m)]) ↔ x ∈ waiting s.queue ∨ x = c := by
    simp [waiting]
  -- what is in the books was seen before, so it is not the new connection
  have hout : ∀ {x}, x ∈ s.seen → x ∉ waiting s.queue →
      x ∈ c :: s.seen ∧ x ∉ waiting (s.queue ++ [(c, m)]) := by
    intro x hx hw
    refine ⟨List.mem_cons_of_mem _ hx, fun h => ?_⟩
    rcases hmem.1 h with h | rfl
    · exact hw h
    · exact hc hx
  refine ⟨fun x hx => ?_, ?_, fun x hx => ?_, h.repliedOnce, fun id r hid => ?_, fun id hid => ?_,
    fun id hid => ?_, h.servedOnce⟩
  · rcases hmem.1 hx with hx | rfl
    · exact List.mem_cons_of_mem _ (h.queued x hx)
    · exact List.mem_cons_self
  · have hnew : c ∉ waiting s.queue := fun hq => hc (h.queued c hq)
    simp only [waiting, List.map_append, List.map_cons, List.map_nil]
    rw [List.nodup_append]
    refine ⟨h.queuedOnce, List.nodup_singleton c, ?_⟩
    rintro x hx y hy rfl
    rw [List.mem_singleton] at hy
    exact hnew (hy ▸ hx)
  · obtain ⟨h1, h2, h3⟩ := h.replied x hx
    exact ⟨h1, hout h2 h3⟩
  · obtain ⟨h1, h2, h3, h4⟩ := h.held id r hid
    exact ⟨h1, (hout h2 h3).1, (hout h2 h3).2, h4⟩
  · exact hout (h.left id hid).1 (h.left id hid).2
  · exact hout (h.served id hid).1 (h.served id hid).2

theorem step_running (ht : step s e = some t) : s.ended = false := by
  unfold step at ht
  split at ht
  · cases ht
  · rename_i h; simpa using h

/-- **Every event keeps the books.** -/
theorem step_kept (h : Books s) (hc : s.conn = none) (ht : step s e = some t) : Kept s t := by
  have hrun := step_running ht
  unfold step at ht
  rw [if_neg (by simp [hrun])] at ht
  cases e with
  | connect c m =>
    dsimp only at ht
    split at ht
    · cases ht
    · rename_i hnew
      cases ht
      exact ⟨h.connect hnew m, hc, .kept rfl rfl rfl⟩
  | turn => cases ht; exact cutRequested_kept h
  | recoveryWait => cases ht; exact cutRequested_kept h
  | parked operator asked file writes => cases ht; exact parkedOn_kept h operator asked file writes
  | boundary switches =>
    cases ht
    cases hs : s.held with
    | none => exact boundary_free h hs switches
    | some x => exact (boundary_held h hc hs switches).1
  | finish => cases ht; exact (⟨h, hc, .kept rfl rfl rfl⟩ : Kept s s).endRun

/-! ## What is lost -/

/-- A request acknowledged and left for later that nothing will return. -/
structure Lost (s : State) (id : ℕ) : Prop where
  left : id ∈ s.left
  notServed : id ∉ s.served
  notHeld : ∀ r, s.held ≠ some (id, r)

theorem nothingLost_iff_not_lost : NothingLost s ↔ ∀ id, ¬ Lost s id := by
  refine ⟨fun h id hl => ?_, fun h id hid => ?_⟩
  · rcases h id hl.left with hs | ⟨r, hr⟩
    · exact hl.notServed hs
    · exact hl.notHeld r hr
  · by_contra hno
    rw [not_or, not_exists] at hno
    exact h id ⟨hid, hno.1, hno.2⟩

/-- **What is lost stays lost.** -/
theorem lost_kept (h : Books s) (hk : Slot s t) (hl : Lost s id) : Lost t id := by
  have hwait := (h.left id hl.left).2
  cases hk with
  | kept h1 h2 h3 => exact ⟨h2 ▸ hl.left, h3 ▸ hl.notServed, h1 ▸ hl.notHeld⟩
  | holds id' r _ _ hq h1 h2 h3 =>
    -- what is held now came from the queue, and the lost one has left it
    refine ⟨h2 ▸ List.mem_cons_of_mem _ hl.left, h3 ▸ hl.notServed, fun r' hr' => ?_⟩
    rw [h1] at hr'
    cases hr'
    exact hwait hq
  | returns id' r hs h1 h2 h3 =>
    refine ⟨h2 ▸ hl.left, fun hid => ?_, by simp [h1]⟩
    rcases List.mem_cons.1 (h3 ▸ hid) with rfl | hid
    · exact hl.notHeld r hs
    · exact hl.notServed hid
  | passes id' _ hq h1 h2 h3 =>
    refine ⟨h2 ▸ hl.left, fun hid => ?_, by simp [h1]⟩
    rcases List.mem_cons.1 (h3 ▸ hid) with rfl | hid
    · exact hwait hq
    · exact hl.notServed hid

/-- A request that is held and not returned is lost when another takes its place. -/
theorem nothingLost_kept (h : NothingLost s) (hk : Slot s t)
    (hfree : ∀ id r, (delivered s).1 = some (id, r) → r.deferred → t.left ≠ s.left → s.held = none) :
    NothingLost t := by
  cases hk with
  | kept h1 h2 h3 => intro id hid; rw [h1, h3]; exact h id (h2 ▸ hid)
  | holds id' r hr hd _ h1 h2 h3 =>
    -- the slot was free, so everything left for later before had been returned
    have hnone : s.held = none := hfree id' r hd hr (by rw [h2]; simp)
    intro id hid
    rw [h2] at hid
    rcases List.mem_cons.1 hid with rfl | hid
    · exact .inr ⟨r, h1⟩
    · rcases h id hid with hs | ⟨r', hr'⟩
      · exact .inl (h3 ▸ hs)
      · rw [hnone] at hr'; cases hr'
  | returns id' r hs h1 h2 h3 =>
    intro id hid
    rw [h3]
    rcases h id (h2 ▸ hid) with hv | ⟨r', hr'⟩
    · exact .inl (List.mem_cons_of_mem _ hv)
    · rw [hs] at hr'
      cases hr'
      exact .inl List.mem_cons_self
  | passes id' hs _ h1 h2 h3 =>
    intro id hid
    rw [h3]
    rcases h id (h2 ▸ hid) with hv | ⟨r', hr'⟩
    · exact .inl (List.mem_cons_of_mem _ hv)
    · rw [hs] at hr'; cases hr'

/-- `cut_by` holds a deferred request. -/
theorem cutBy_held (u : State) (hr : r.deferred) : (cutBy u id r).held = some (id, r) := by
  unfold cutBy
  rcases hr with hr | ⟨hr, hb⟩
  · rw [if_neg (by rw [hr]; decide), if_pos hr]; rfl
  · rw [if_neg (by rw [hr]; decide), if_neg (by rw [hr]; decide), if_neg (by rw [hr]; decide),
      if_neg (by simp [hr]), if_pos hb]
    rfl

theorem Request.deferred.action_ne (hr : r.deferred) : r.action ≠ ANSWER := by
  rcases hr with hr | ⟨hr, -⟩ <;> rw [hr] <;> decide

/-- An event that finds a deferred request on the channel holds it. -/
theorem step_holds (ht : step s e = some t) (he : e.cuts) (hd : (delivered s).1 = some (id, r))
    (hr : r.deferred) : t.held = some (id, r) := by
  have hrun := step_running ht
  have hdel : delivered s = (some (id, r), (delivered s).2) := Prod.ext hd rfl
  have hcut : (cutRequested s).held = some (id, r) := by
    unfold cutRequested; rw [hdel]; exact cutBy_held _ hr
  unfold step at ht
  rw [if_neg (by simp [hrun])] at ht
  cases e with
  | turn => cases ht; exact hcut
  | recoveryWait => cases ht; exact hcut
  | parked operator asked file writes =>
    cases ht
    unfold parkedOn
    rw [hdel]
    exact (congrArg State.held (if_neg hr.action_ne)).trans (cutBy_held _ hr)
  | connect c m => exact he.elim
  | boundary switches => exact he.elim
  | finish => exact he.elim

/-- The boundary leaves nothing for later. -/
theorem boundary_left (h : Books s) (switches : Bool) : (boundary s switches).left = s.left := by
  have hout : (outstanding s).2.left = s.left := by
    unfold outstanding
    split
    · rfl
    · exact (delivered_spec h).left
  unfold boundary
  split
  · rename_i u hu; rw [hu] at hout; exact hout
  · rename_i id r u hu
    rw [hu] at hout
    split
    · simpa using hout
    split
    · simpa using hout
    split
    · simpa using hout
    split
    · simpa using hout
    · simpa using hout

/-- Only a site that follows `cut_by` leaves a request for later. -/
theorem step_left (h : Books s) (ht : step s e = some t) (hne : t.left ≠ s.left) : e.cuts := by
  have hrun := step_running ht
  unfold step at ht
  rw [if_neg (by simp [hrun])] at ht
  cases e with
  | turn => trivial
  | recoveryWait => trivial
  | parked operator asked file writes => trivial
  | connect c m =>
    dsimp only at ht
    split at ht
    · cases ht
    · cases ht; exact hne rfl
  | boundary switches => cases ht; exact hne (boundary_left h switches)
  | finish => cases ht; exact hne rfl

/-! ## Whole runs -/

/-- The state between two events. -/
structure Rest (s : State) : Prop where
  books : Books s
  closed : s.conn = none

theorem step_rest (h : Rest s) (ht : step s e = some t) : Rest t :=
  have hk := step_kept h.books h.closed ht
  ⟨hk.books, hk.closed⟩

theorem armed_rest : Rest armed where
  books := ⟨nofun, List.nodup_nil, nofun, List.nodup_nil, nofun, nofun, nofun, List.nodup_nil⟩
  closed := rfl

/-- A step that defers a request over a held one loses the held one. -/
theorem step_loses (h : Rest s) (ht : step s e = some t) (hno : ¬ SlotFree s e) :
    ∃ id, Lost t id := by
  unfold SlotFree at hno
  push Not at hno
  obtain ⟨he, id, r, hd, hr, hheld⟩ := hno
  obtain ⟨⟨id₀, r₀⟩, hs⟩ := Option.ne_none_iff_exists'.1 hheld
  obtain ⟨-, -, hwait, hserved, hleft⟩ := h.books.held id₀ r₀ hs
  have hk := step_kept h.books h.closed ht
  have hheld' := step_holds ht he hd hr
  refine ⟨id₀, ?_⟩
  have hq : id ∈ waiting s.queue := ((delivered_spec h.books).some_ id r hd).2.2
  have hne : ∀ r', t.held ≠ some (id₀, r') := fun r' hr' => by
    rw [hheld'] at hr'
    cases hr'
    exact hwait hq
  -- of the changes to the slot only a hold fits the two requests
  cases hk.slot with
  | kept h1 h2 h3 => rw [hheld', hs] at h1; cases h1; exact absurd hq hwait
  | holds id' r' _ _ _ h1 h2 h3 => exact ⟨h2 ▸ List.mem_cons_of_mem _ hleft, h3 ▸ hserved, hne⟩
  | returns id' r' _ h1 _ _ => rw [hheld'] at h1; cases h1
  | passes id' _ _ h1 _ _ => rw [hheld'] at h1; cases h1

/-- **Nothing is lost along a run exactly when the slot was free for every deferred request.** -/
theorem nothingLost_iff : ∀ {es : List Event} {s : State}, Rest s → NothingLost s →
    Run.run step s es = some t → (NothingLost t ↔ Run.Along step SlotFree s es)
  | [], s, _, hn, hr => by cases hr; exact ⟨fun _ => trivial, fun _ => hn⟩
  | e :: es, s, h, hn, hr => by
    obtain ⟨u, hu, hr⟩ := Run.run_cons_some.1 hr
    have hk := step_kept h.books h.closed hu
    rw [Run.along_cons hu]
    by_cases hfree : SlotFree s e
    · have hn' : NothingLost u := nothingLost_kept hn hk.slot fun id r hd hr hne =>
        hfree (step_left h.books hu hne) id r hd hr
      rw [nothingLost_iff (step_rest h hu) hn' hr]
      exact ⟨fun h => ⟨hfree, h⟩, And.right⟩
    · -- the request that this step loses stays lost to the end of the run
      obtain ⟨id, hlost⟩ := step_loses h hu hfree
      have hstep : ∀ s e t, Rest s ∧ Lost s id → step s e = some t → Rest t ∧ Lost t id :=
        fun s e t hs ht => ⟨step_rest hs.1 ht,
          lost_kept hs.1.books (step_kept hs.1.books hs.1.closed ht).slot hs.2⟩
      have hlost' := Run.inv_run hstep ⟨step_rest h hu, hlost⟩ hr
      exact ⟨fun hn => absurd hlost'.2 (nothingLost_iff_not_lost.1 hn id),
        fun hfree' => absurd hfree'.1 hfree⟩

/-- **No deferred request is lost.** Along a run, everything acknowledged and left for later
is returned or still held if and only if no request was deferred while another was held. On
every run a request is returned at most once, the next boundary returns the held one, and a
request gets at most one reply, on the connection it came in on. -/
theorem deferred_requests_kept (es : List Event) (s : State) (h : Run.run step armed es = some s) :
    (NothingLost s ↔ Run.Along step SlotFree armed es) ∧ s.served.Nodup ∧
    (∀ id r switches t, s.held = some (id, r) → step s (.boundary switches) = some t →
      id ∈ t.served) ∧
    (∀ x ∈ s.replies, x.conn = x.request) ∧ (s.replies.map Replied.request).Nodup := by
  have hs : Rest s := Run.inv_run (fun _ _ _ => step_rest) armed_rest h
  refine ⟨nothingLost_iff armed_rest nofun h, hs.books.servedOnce, fun id r switches t hheld ht => ?_,
    fun x hx => (hs.books.replied x hx).1, ?_⟩
  · have hrun := step_running ht
    unfold step at ht
    rw [if_neg (by simp [hrun])] at ht
    cases ht
    exact (boundary_held hs.books hs.closed hheld switches).2
  · have : s.replies.map Replied.request = s.replies.map Replied.conn :=
      List.map_congr_left fun x hx => ((hs.books.replied x hx).1).symm
    rw [this]
    exact hs.books.repliedOnce

/-! ## Two requests between two boundaries -/

def reloadAtBoundary : Request := ⟨ACTION, false, true, [], [], [], []⟩

def switchCheap : Request := ⟨SWITCH_PROFILE, false, false, [], "cheap".toList, [], []⟩

/-- One deferred request before a boundary. -/
def oneHold : List Event := [.connect 1 (.request reloadAtBoundary), .turn, .boundary true]

theorem deferred_requests_kept_one : ∃ s, Run.run step armed oneHold = some s ∧ s.left = [1] ∧
    NothingLost s := by
  refine ⟨_, rfl, rfl, (deferred_requests_kept oneHold _ rfl).1.2 ?_⟩
  refine (Run.along_cons rfl).2 ⟨fun h => h.elim, ?_⟩
  refine (Run.along_cons rfl).2 ⟨fun _ _ _ _ _ => rfl, ?_⟩
  exact (Run.along_cons rfl).2 ⟨fun h => h.elim, trivial⟩

/-- A reload for the boundary during a turn, a profile switch during the next, a boundary. -/
def twoHolds : List Event :=
  [.connect 1 (.request reloadAtBoundary), .turn, .connect 2 (.request switchCheap), .turn,
   .boundary true]

/-- **The second hold loses the first**: both requests are acknowledged, the boundary returns
the profile switch, the run goes on, and the reload is neither returned nor held. -/
theorem second_hold_loses_the_first : ∃ s, Run.run step armed twoHolds = some s ∧
    s.replies = [⟨2, 2, .queued "cheap".toList⟩, ⟨1, 1, .reload false⟩] ∧
    s.left = [2, 1] ∧ s.served = [2] ∧ s.held = none ∧ s.ended = false ∧ ¬ NothingLost s := by
  refine ⟨_, rfl, rfl, rfl, rfl, rfl, rfl, fun h => ?_⟩
  rcases h 1 (by decide) with h | ⟨r, h⟩
  · exact absurd h (by decide)
  · cases h

end Stablemate.Control
